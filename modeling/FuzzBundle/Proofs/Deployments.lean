/-
  FuzzBundle.Proofs.Deployments — what a node is asked when targets are deployed, and what is kept.

  A node may answer each question in any way, and differently each time. `ChainNode.recording` is a
  node that answers as another one does and keeps a list of questions and answers; deploying cannot
  tell the two apart (`deployAll_recording`).

  The deployment of one target with code is an `Attempt`: a transaction that is refused, or one with
  its trace, which may be refused as well. An attempt makes its own calls and keeps its own
  candidates, so that those of a whole run are the calls and candidates of the attempts one after
  the other (`foldl_deployOne`), whatever went wrong in some of them.

  Main statement: `deployAll_deployed`.
-/
import Mathlib.Data.List.Forall2
import FuzzBundle.Deployment.Reconciliation
import FuzzBundle.Proofs.ContractMaps

namespace FuzzBundle

/-! ## §1. Questions to a node -/

namespace ChainNode

/-- A question to a node, with its answer. -/
inductive Event where
  | accounts (answer : Except RpcError (List String))
  | send (sender data : String) (answer : Except RpcError String)
  | trace (hash : String) (answer : Except RpcError Json)

/-- A node that answers as another one does, and keeps what it was asked. -/
def recording (node : ChainNode σ) : ChainNode (List Event × σ) where
  accounts s :=
    let (answer, after) := node.accounts s.2
    (answer, s.1 ++ [.accounts answer], after)
  send sender data s :=
    let (answer, after) := node.send sender data s.2
    (answer, s.1 ++ [.send sender data answer], after)
  trace hash s :=
    let (answer, after) := node.trace hash s.2
    (answer, s.1 ++ [.trace hash answer], after)

variable {node : ChainNode σ} {s after : σ}

theorem recording_accounts {answer : Except RpcError (List String)}
    (h : node.accounts s = (answer, after)) (log : List Event) :
    node.recording.accounts (log, s) = (answer, log ++ [.accounts answer], after) := by
  simp only [recording, h]

theorem recording_send {sender data : String} {answer : Except RpcError String}
    (h : node.send sender data s = (answer, after)) (log : List Event) :
    node.recording.send sender data (log, s)
      = (answer, log ++ [.send sender data answer], after) := by
  simp only [recording, h]

theorem recording_trace {hash : String} {answer : Except RpcError Json}
    (h : node.trace hash s = (answer, after)) (log : List Event) :
    node.recording.trace hash (log, s) = (answer, log ++ [.trace hash answer], after) := by
  simp only [recording, h]

end ChainNode

/-! ## §2. What is listed -/

/-- The second list has what the items of the first one are related to, in their order. Items that
are related to nothing are left out. -/
inductive Selects (R : α → β → Prop) : List α → List β → Prop where
  | nil : Selects R [] []
  | take {a : α} {b : β} {as : List α} {bs : List β} (related : R a b) (rest : Selects R as bs) :
    Selects R (a :: as) (b :: bs)
  | skip {a : α} {as : List α} {bs : List β} (unrelated : ∀ b, ¬ R a b) (rest : Selects R as bs) :
    Selects R (a :: as) bs

theorem selects_filterMap {R : α → β → Prop} {f : α → Option β} (h : ∀ a b, f a = some b ↔ R a b)
    (as : List α) : Selects R as (as.filterMap f) := by
  induction as with
  | nil => exact .nil
  | cons a as ih =>
    cases hf : f a with
    | none =>
      rw [List.filterMap_cons_none hf]
      refine .skip (fun b hb => ?_) ih
      rw [(h a b).2 hb] at hf
      cases hf
    | some b =>
      rw [List.filterMap_cons_some hf]
      exact .take ((h a b).1 hf) ih

/-- The entries of a map, in the order of files and contracts. -/
structure InOrder (m : ContractMap α) (entries : List (String × String × α)) : Prop where
  ascending : entries.Pairwise ContractMap.Before
  listed : ∀ file contract value,
    (file, contract, value) ∈ entries ↔ m.find? file contract = some value

theorem inOrder_flatten (m : ContractMap α) : InOrder m m.flatten :=
  ⟨ContractMap.ascending_flatten m, fun _ _ _ => ContractMap.mem_flatten_iff⟩

namespace Text

/-- Removing a beginning as often as it stands there leaves nothing of its repetitions, and
something of everything else. -/
theorem dropStartRepeatedly_eq_nil_iff {start : List Char} (proper : start ≠ []) {fuel : Nat}
    {cs : List Char} (enough : cs.length ≤ fuel) :
    dropStartRepeatedly start fuel cs = [] ↔ ∃ n, cs = (List.replicate n start).flatten := by
  -- every removal takes a character at least, so that the fuel does not run out before the end
  induction fuel generalizing cs with
  | zero =>
    have empty : cs = [] := List.length_eq_zero_iff.1 (Nat.le_zero.1 enough)
    exact iff_of_true empty ⟨0, empty⟩
  | succ fuel ih =>
    rw [dropStartRepeatedly]
    cases h : dropStart? start cs with
    | some rest =>
      have split : cs = start ++ rest := dropStart?_eq_some_iff.1 h
      have shorter : rest.length ≤ fuel := by
        have := List.length_pos_iff.2 proper
        rw [split, List.length_append] at enough
        omega
      rw [ih shorter, split]
      constructor
      · rintro ⟨n, rfl⟩
        exact ⟨n + 1, by rw [List.replicate_succ, List.flatten_cons]⟩
      · rintro ⟨n, repeated⟩
        cases n with
        | zero => exact absurd (List.append_eq_nil_iff.1 repeated).1 proper
        | succ n =>
          rw [List.replicate_succ, List.flatten_cons] at repeated
          exact ⟨n, List.append_cancel_left repeated⟩
    | none =>
      constructor
      · intro empty
        exact ⟨0, empty⟩
      · rintro ⟨n, rfl⟩
        cases n with
        | zero => rfl
        | succ n =>
          rw [List.replicate_succ, List.flatten_cons, dropStart?_eq_some_iff.2 rfl] at h
          cases h

end Text

/-! ## §3. Codes to deploy -/

namespace Reconciliation

open Bytecode

/-- Code of which nothing is left when `0x` is removed as often as it stands there. -/
def Hollow (code : String) : Prop := ∃ n, code.toList = (List.replicate n ['0', 'x']).flatten

theorem hollow_iff {code : String} : Text.trimStartText "0x" code = "" ↔ Hollow code := by
  have dropped : Text.dropStartRepeatedly ['0', 'x'] code.toList.length code.toList = []
      ↔ Hollow code :=
    Text.dropStartRepeatedly_eq_nil_iff (by simp) (Nat.le_refl _)
  rw [← dropped, ← String.toList_inj]
  show (String.ofList _).toList = _ ↔ _
  rw [String.toList_ofList]
  rfl

/-- A successful artifact has creation code for a contract of a file. -/
structure Supplies (artifact : Artifact) (file contract code : String) : Prop where
  success : artifact.success = true
  has : artifact.creationCode?.bind (·.find? file contract) = some code
  full : ¬ Hollow code

/-- The creation code of the first artifact that has some for a contract of a file. -/
def FirstCode (artifacts : List Artifact) (file contract code : String) : Prop :=
  ∃ before first after, artifacts = before ++ first :: after
    ∧ Supplies first file contract code
    ∧ ∀ earlier ∈ before, ∀ other, ¬ Supplies earlier file contract other

/-- The creation code that an artifact has for a contract of a file. -/
def supplied? (file contract : String) (artifact : Artifact) : Option String :=
  if artifact.success then
    (artifact.creationCode?.bind (·.find? file contract)).filter fun code =>
      Text.trimStartText "0x" code ≠ ""
  else none

theorem supplied?_eq_some_iff {file contract code : String} {artifact : Artifact} :
    supplied? file contract artifact = some code ↔ Supplies artifact file contract code := by
  rw [supplied?]
  split
  · next success =>
    rw [Option.filter_eq_some_iff, decide_eq_true_eq, ne_eq, hollow_iff]
    exact ⟨fun ⟨has, full⟩ => ⟨success, has, full⟩, fun h => ⟨h.has, h.full⟩⟩
  · next failed => exact iff_of_false nofun fun h => failed h.success

theorem creationCode?_eq (artifacts : List Artifact) (file contract : String) :
    creationCode? artifacts file contract = artifacts.findSome? (supplied? file contract) := by
  induction artifacts with
  | nil => rfl
  | cons artifact rest ih =>
    rw [List.findSome?_cons, ← ih]
    unfold creationCode? supplied?
    cases success : artifact.success with
    | false =>
      rw [List.filter_cons_of_neg (by simp [success])]
      rfl
    | true =>
      rw [List.filter_cons_of_pos success]
      cases has : artifact.creationCode?.bind (·.find? file contract) with
      | none =>
        simp only [List.filterMap_cons, has]
        rfl
      | some code =>
        simp only [List.filterMap_cons, has, List.find?_cons, if_true]
        by_cases hollow : Text.trimStartText "0x" code = "" <;> simp [hollow, Option.filter]

/-- **The creation code of a target is that of the first artifact that has some.** -/
theorem creationCode?_eq_some_iff {artifacts : List Artifact} {file contract code : String} :
    creationCode? artifacts file contract = some code ↔ FirstCode artifacts file contract code := by
  rw [creationCode?_eq, List.findSome?_eq_some_iff]
  have none (earlier : Artifact) : supplied? file contract earlier = none
      ↔ ∀ other, ¬ Supplies earlier file contract other := by
    rw [Option.eq_none_iff_forall_ne_some]
    exact forall_congr' fun other => not_congr supplied?_eq_some_iff
  simp only [supplied?_eq_some_iff, none]
  rfl

/-- What is sent to deploy a target: its linked code and its constructor arguments. -/
def Sends (artifacts : List Artifact) (target : String × String × Target) (data : String) : Prop :=
  ∃ code, FirstCode artifacts target.1 target.2.1 code
    ∧ data = "0x" ++ normalize code ++ Text.dropStart "0x" target.2.2.constructorArgs

/-- What is sent to deploy a target, if it has code. -/
def dataFor? (artifacts : List Artifact) (target : String × String × Target) : Option String :=
  (creationCode? artifacts target.1 target.2.1).map (deploymentData · target.2.2.constructorArgs)

theorem dataFor?_eq_some_iff (artifacts : List Artifact) (target : String × String × Target)
    (data : String) : dataFor? artifacts target = some data ↔ Sends artifacts target data := by
  rw [dataFor?, Option.map_eq_some_iff]
  exact exists_congr fun code => and_congr creationCode?_eq_some_iff eq_comm

/-! ## §4. Candidates of a trace -/

/-- An entry of a trace shows code at an address. -/
def Shows (entry : Json) (c : Candidate) : Prop :=
  ∃ result code, entry.field? "result" = some result
    ∧ result.field? "address" = some (.string c.address)
    ∧ result.field? "code" = some (.string code)
    ∧ Bytecode.decode code = .ok c.code

theorem candidateOf?_eq_some_iff (entry : Json) (c : Candidate) :
    candidateOf? entry = some c ↔ Shows entry c := by
  obtain ⟨address, bytes⟩ := c
  unfold candidateOf? Shows
  constructor
  · intro h
    obtain ⟨result, hr, h⟩ := Option.bind_eq_some_iff.1 h
    obtain ⟨a, ha, h⟩ := Option.bind_eq_some_iff.1 h
    obtain ⟨code, hc, h⟩ := Option.bind_eq_some_iff.1 h
    obtain ⟨va, hva, ha⟩ := Option.bind_eq_some_iff.1 ha
    obtain ⟨vc, hvc, hc⟩ := Option.bind_eq_some_iff.1 hc
    cases Json.string?_eq_some_iff.1 ha
    cases Json.string?_eq_some_iff.1 hc
    split at h
    · next decoded =>
      cases h
      exact ⟨result, code, hr, hva, hvc, decoded⟩
    · cases h
  · rintro ⟨result, code, hr, ha, hc, decoded⟩
    simp only [hr, ha, hc, decoded, Option.bind_eq_bind, Option.bind_some, Json.string?]

/-- What is kept of a trace: what its entries show. One that is no list shows nothing. -/
inductive Keeps : Json → List Candidate → Prop where
  | list {entries : List Json} {kept : List Candidate} (shown : Selects Shows entries kept) :
    Keeps (.array entries) kept
  | other {trace : Json} (no_list : ∀ entries, trace ≠ .array entries) : Keeps trace []

theorem keeps_candidatesOf (trace : Json) : Keeps trace (candidatesOf trace) := by
  cases trace with
  | array entries => exact .list (selects_filterMap candidateOf?_eq_some_iff entries)
  | _ => exact .other nofun

/-! ## §5. Attempts -/

/-- How the deployment of a target went. -/
inductive Attempt where
  | refused (why : RpcError)
  | untraced (hash : String) (why : RpcError)
  | traced (hash : String) (trace : Json)

namespace Attempt

/-- The questions that an attempt asks. -/
def events (sender data : String) : Attempt → List ChainNode.Event
  | refused why => [.send sender data (.error why)]
  | untraced hash why => [.send sender data (.ok hash), .trace hash (.error why)]
  | traced hash trace => [.send sender data (.ok hash), .trace hash (.ok trace)]

/-- The trace that an attempt got, if it got one. -/
def trace? : Attempt → Option Json
  | refused _ => none
  | untraced _ _ => none
  | traced _ trace => some trace

/-- What an attempt keeps. -/
def kept (a : Attempt) : List Candidate := (a.trace?.map candidatesOf).getD []

end Attempt

variable {σ : Type u} (node : ChainNode σ) (artifacts : List Artifact) (sender : String)

/-- Sends something, and traces what was sent. -/
def attempt (data : String) (s : σ) : Attempt × σ :=
  match node.send sender data s with
  | (.error why, after) => (.refused why, after)
  | (.ok hash, after) =>
    match node.trace hash after with
    | (.error why, after) => (.untraced hash why, after)
    | (.ok trace, after) => (.traced hash trace, after)

/-- Attempts one after the other. -/
def attemptAll : List String → σ → List Attempt × σ
  | [], s => ([], s)
  | data :: datas, s =>
    let first := attempt node sender data s
    let rest := attemptAll datas first.2
    (first.1 :: rest.1, rest.2)

theorem length_attemptAll (datas : List String) (s : σ) :
    (attemptAll node sender datas s).1.length = datas.length := by
  induction datas generalizing s with
  | nil => rfl
  | cons data datas ih => exact congrArg (· + 1) (ih (attempt node sender data s).2)

/-- The questions of some attempts, one after the other. -/
def eventsOf (datas : List String) (attempts : List Attempt) : List ChainNode.Event :=
  (List.zipWith (Attempt.events sender) datas attempts).flatten

/-- **A node that keeps what it is asked sees the questions of the attempt.** -/
theorem attempt_recording (data : String) (log : List ChainNode.Event) (s : σ) :
    attempt node.recording sender data (log, s)
      = ((attempt node sender data s).1,
        log ++ (attempt node sender data s).1.events sender data,
        (attempt node sender data s).2) := by
  unfold attempt
  rcases sent : node.send sender data s with ⟨why | hash, after⟩
  · simp only [ChainNode.recording_send sent]
    rfl
  · rcases traced : node.trace hash after with ⟨why | trace, last⟩ <;>
    · simp only [ChainNode.recording_send sent, traced, ChainNode.recording_trace traced,
        List.append_assoc]
      rfl

theorem attemptAll_recording (datas : List String) (log : List ChainNode.Event) (s : σ) :
    attemptAll node.recording sender datas (log, s)
      = ((attemptAll node sender datas s).1,
        log ++ eventsOf sender datas (attemptAll node sender datas s).1,
        (attemptAll node sender datas s).2) := by
  induction datas generalizing log s with
  | nil => exact congrArg (fun l => (_, l, _)) (List.append_nil log).symm
  | cons data datas ih =>
    simp only [attemptAll, attempt_recording, ih, List.append_assoc]
    rfl

/-- A target without code changes nothing. -/
theorem deployOne_of_no_data {target : String × String × Target}
    (h : dataFor? artifacts target = none) (state : List Candidate × σ) :
    deployOne node artifacts sender state target = state := by
  rw [deployOne, Option.map_eq_none_iff.1 h]

/-- A target with code makes one attempt. -/
theorem deployOne_of_data {target : String × String × Target} {data : String}
    (h : dataFor? artifacts target = some data) (found : List Candidate) (s : σ) :
    deployOne node artifacts sender (found, s) target
      = (found ++ (attempt node sender data s).1.kept, (attempt node sender data s).2) := by
  obtain ⟨code, hcode, rfl⟩ := Option.map_eq_some_iff.1 h
  -- nothing is kept where there is no trace
  have nothing (s : σ) : (found, s) = (found ++ [], s) := by rw [List.append_nil]
  unfold deployOne attempt
  simp only [hcode]
  rcases sent : node.send sender (deploymentData code target.2.2.constructorArgs) s
    with ⟨why | hash, after⟩
  · exact nothing after
  · rcases traced : node.trace hash after with ⟨why | trace, last⟩
    · simp only [traced]
      exact nothing last
    · simp only [traced]
      rfl

/-- **Targets make their attempts one after the other**, whatever comes of each. -/
theorem foldl_deployOne (targets : List (String × String × Target)) (found : List Candidate)
    (s : σ) :
    let all := attemptAll node sender (targets.filterMap (dataFor? artifacts)) s
    targets.foldl (deployOne node artifacts sender) (found, s)
      = (found ++ all.1.flatMap Attempt.kept, all.2) := by
  induction targets generalizing found s with
  | nil => exact congrArg (fun l => (l, _)) (List.append_nil found).symm
  | cons target rest ih =>
    cases h : dataFor? artifacts target with
    | none =>
      rw [List.foldl_cons, deployOne_of_no_data node artifacts sender h,
        List.filterMap_cons_none h]
      exact ih found s
    | some data =>
      rw [List.foldl_cons, deployOne_of_data node artifacts sender h, ih,
        List.filterMap_cons_some h, List.append_assoc]
      rfl

/-! ## §6. Whole deployments -/

/-- What is sent to deploy some targets, in the order of files and contracts. -/
def ToSend (artifacts : List Artifact) (targets : TargetMap) (datas : List String) : Prop :=
  ∃ order, InOrder targets order ∧ Selects (Sends artifacts) order datas

/-- What is asked and kept when there is this to send. The accounts come first. Without one this is
all; otherwise everything is sent from the first account, each with an attempt of its own, and the
candidates are those of the traces, in their order. -/
inductive Deployed (datas : List String) : List ChainNode.Event → List Candidate → Prop where
  | unanswered (why : RpcError) : Deployed datas [.accounts (.error why)] []
  | noAccount : Deployed datas [.accounts (.ok [])] []
  | sent {sender : String} {others : List String} {attempts : List Attempt}
    {kept : List (List Candidate)} (paired : attempts.length = datas.length)
    (traced : List.Forall₂ Keeps (attempts.filterMap Attempt.trace?) kept) :
    Deployed datas (.accounts (.ok (sender :: others)) :: eventsOf sender datas attempts)
      kept.flatten

/-- Candidates and the state of a node, without what it has kept. -/
def forget (state : List Candidate × List ChainNode.Event × σ) : List Candidate × σ :=
  (state.1, state.2.2)

/-- A deployment from some account is that of all attempts. -/
theorem deployAll_of_account (targets : TargetMap) {s after : σ} {sender : String}
    {others : List String} (listed : node.accounts s = (.ok (sender :: others), after)) :
    let all := attemptAll node sender (targets.flatten.filterMap (dataFor? artifacts)) after
    deployAll node artifacts targets s = (all.1.flatMap Attempt.kept, all.2) := by
  unfold deployAll
  simp only [listed]
  rw [foldl_deployOne, List.nil_append]

/-- **Deploying does not tell a node from one that keeps what it is asked.** -/
theorem deployAll_recording (targets : TargetMap) (s : σ) :
    deployAll node artifacts targets s
      = forget (deployAll node.recording artifacts targets ([], s)) := by
  rcases listed : node.accounts s with ⟨why | (_ | ⟨sender, others⟩), after⟩
  · simp only [deployAll, listed, ChainNode.recording_accounts listed]
    rfl
  · simp only [deployAll, listed, ChainNode.recording_accounts listed]
    rfl
  · have recorded := ChainNode.recording_accounts listed []
    rw [deployAll_of_account node artifacts targets listed,
      deployAll_of_account node.recording artifacts targets recorded, attemptAll_recording]
    rfl

/-- What attempts keep is what the traces show that they got. -/
theorem flatMap_kept (attempts : List Attempt) :
    attempts.flatMap Attempt.kept
      = ((attempts.filterMap Attempt.trace?).map candidatesOf).flatten := by
  induction attempts with
  | nil => rfl
  | cons a rest ih =>
    rw [List.flatMap_cons, ih]
    cases a <;> rfl

/-- **Deployment is one attempt after the other, for every target with code.** What there is to send
depends on the artifacts and the targets alone, and not on what the node answers. -/
theorem deployAll_deployed (artifacts : List Artifact) (targets : TargetMap) :
    ∃ datas, ToSend artifacts targets datas ∧ ∀ (σ : Type u) (node : ChainNode σ) (s : σ),
      let run := deployAll node.recording artifacts targets ([], s)
      Deployed datas run.2.1 run.1 ∧ deployAll node artifacts targets s = forget run := by
  refine ⟨targets.flatten.filterMap (dataFor? artifacts), ⟨targets.flatten,
    inOrder_flatten targets, selects_filterMap (dataFor?_eq_some_iff artifacts) _⟩, ?_⟩
  intro σ node s
  rcases listed : node.accounts s with ⟨why | (_ | ⟨sender, others⟩), after⟩
  · simp only [deployAll, listed, ChainNode.recording_accounts listed]
    exact ⟨.unanswered why, rfl⟩
  · simp only [deployAll, listed, ChainNode.recording_accounts listed]
    exact ⟨.noAccount, rfl⟩
  · rw [deployAll_of_account node artifacts targets listed,
      deployAll_of_account node.recording artifacts targets
        (ChainNode.recording_accounts listed []),
      attemptAll_recording]
    refine ⟨?_, rfl⟩
    rw [flatMap_kept]
    refine .sent (length_attemptAll ..) ?_
    rw [List.forall₂_map_right_iff, List.forall₂_same]
    exact fun trace _ => keeps_candidatesOf trace

end Reconciliation

end FuzzBundle
