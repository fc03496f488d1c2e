/-
  FuzzBundle.Process — files that are written and programs that are run, seen from outside.

  What comes of writing a file and of running a program is given as data: whether the file was
  written and the program started, how either ended, and what it left. The texts in which endings
  are reported are fixed here.
-/
import FuzzBundle.Text.Blank
import FuzzBundle.Text.Encoded

namespace FuzzBundle

/-! ## §1. Files -/

/-- What a file holds: text, or bytes that are no text. -/
inductive Content where
  | text (s : String)
  | bytes (bs : List UInt8)
  deriving DecidableEq, Repr

namespace Content

/-- The content of bytes: text whenever they encode one. -/
def ofBytes (bs : List UInt8) : Content :=
  match String.fromUTF8? ⟨bs.toArray⟩ with
  | some s => .text s
  | none => .bytes bs

/-- The bytes of a file. -/
def stored : Content → List UInt8
  | .text s => encoded s
  | .bytes bs => bs

/-- The text that a file holds. -/
def text? : Content → Option String
  | .text s => some s
  | .bytes _ => none

/-- The text that is shown for a file, which need not hold one. -/
def shownText : Content → String
  | .text s => s
  | .bytes bs => String.ofList (shownFrom 0 bs)

/-- The first bytes of a file. -/
def upTo (content : Content) (n : Nat) : Content := .ofBytes (content.stored.take n)

end Content

/-- What comes of writing a file. The file is written, or it is not touched, or the writing breaks
off, and then the bytes that were written stay. -/
inductive FileWrite where
  | done
  | refused (reason : String)
  | brokenOff (reason : String) (written : Nat)
  deriving DecidableEq, Repr

namespace FileWrite

/-- Why a file was not written, if it was not. -/
def failure? : FileWrite → Option String
  | .done => none
  | .refused reason | .brokenOff reason _ => some reason

/-- What is in a file after it was to be written, given what was in it before. -/
def left (content : Content) (before : Option Content) : FileWrite → Option Content
  | .done => some content
  | .refused _ => before
  | .brokenOff _ written => some (content.upTo written)

@[simp] theorem failure?_eq_none_iff {w : FileWrite} : w.failure? = none ↔ w = .done := by
  cases w <;> simp [failure?]

end FileWrite

/-! ## §2. Programs -/

/-- How a process ended. One that was ended by a signal may have left an image of its memory. -/
inductive ExitStatus where
  | code (n : Nat)
  | signal (n : Nat) (dumped : Bool)
  deriving DecidableEq, Repr

namespace ExitStatus

/-- Whether a process ended well. -/
def success : ExitStatus → Bool
  | .code n => n == 0
  | .signal _ _ => false

/-- The names of the signals that have one of their own, the first being that of signal 1. -/
def signalNames : List String :=
  ["SIGHUP", "SIGINT", "SIGQUIT", "SIGILL", "SIGTRAP", "SIGABRT", "SIGBUS", "SIGFPE", "SIGKILL",
    "SIGUSR1", "SIGSEGV", "SIGUSR2", "SIGPIPE", "SIGALRM", "SIGTERM", "SIGSTKFLT", "SIGCHLD",
    "SIGCONT", "SIGSTOP", "SIGTSTP", "SIGTTIN", "SIGTTOU", "SIGURG", "SIGXCPU", "SIGXFSZ",
    "SIGVTALRM", "SIGPROF", "SIGWINCH", "SIGIO", "SIGPWR", "SIGSYS"]

/-- The name of a signal. -/
def signalName? : Nat → Option String
  | 0 => none
  | n + 1 => signalNames[n]?

/-- How an ending is reported. -/
def text : ExitStatus → String
  | .code n => "exit status: " ++ String.ofList (Nat.toDigits 10 n)
  | .signal n dumped =>
    "signal: " ++ String.ofList (Nat.toDigits 10 n)
      ++ ((signalName? n).map fun name => " (" ++ name ++ ")").getD ""
      ++ if dumped then " (core dumped)" else ""

end ExitStatus

/-- An attempt to run a program: it could not be started, for a reason, or it ran. -/
inductive Launch (α : Type u) where
  | refused (reason : String)
  | ran (a : α)

/-! ## §3. The words of others -/

/-- What a file or a text was to be read as. -/
inductive Wanted where
  | output
  | request
  | fragment
  | targets
  | settings
  | version
  | response
  | accounts
  deriving DecidableEq, Repr

/-- What others say about what is wrong: the machine about a path, and whoever reads documents,
settings and versions about what they were given. -/
structure Wording where
  unopened : (path : String) → String := fun _ => "no such file"
  unlisted : (path : String) → String := fun _ => "no such folder"
  unwritten : (path : String) → String := fun _ => "no folder to write into"
  noText : (path : String) → String := fun _ => "no text"
  misread : Wanted → Content → String := fun _ _ => "not what it should be"
  trailing : Content → String := fun _ => "text after the document"

end FuzzBundle
