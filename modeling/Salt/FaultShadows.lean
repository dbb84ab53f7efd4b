import Mathlib.Data.Int.Order.Basic
import Salt.ReportingCorrect
import Salt.Shadowing

set_option autoImplicit false

/-!
# The run beside a run without faults

`faultless` takes the faults out of a world: every allocation succeeds, no
signal arrives, the streams do what they should, libsodium comes up. A run goes
along with the run from the faultless world until a fault makes it end in a
status that says which kind of fault it was.
-/
namespace Salt.FaultShadows
open ByteStrings BlockHeap TracedState Sealing StreamFacts Framing Tracking ReportingCorrect

def faultlessWrite : WriteOutcome → WriteOutcome
  | .ok drained => .ok drained
  | .fail _ drained => .ok drained

def faultlessOut (s : OutStream) : OutStream :=
  { s with errorFlag := false, script := fun i => faultlessWrite (s.script i) }

def faultlessInput (s : InStream) : InStream :=
  { s with errorFlag := false, readFault := fun _ => none, ungetFault := fun _ => false }

def faultlessSodium (sodium : Sodium) : Sodium :=
  { sodium with init := max sodium.init 0, alloc := some (sodium.alloc.getD fun _ => 0) }

def faultlessEnv (env : Env) : Env :=
  { env with
    signals := fun _ _ => false
    alloc := fun t => some ((env.alloc t).getD fun _ => 0)
    sodium := faultlessSodium env.sodium }

def faultless (w : World) : World :=
  { w with
    env := faultlessEnv w.env
    input := faultlessInput w.input
    out := faultlessOut w.out
    err := faultlessOut w.err
    interrupted := false }

theorem faultlessOut_accepts (s : OutStream) : (faultlessOut s).Accepts := fun i => by
  change ∃ n, faultlessWrite (s.script i) = .ok n
  cases s.script i with
  | ok n => exact ⟨n, rfl⟩
  | fail kept n => exact ⟨n, rfl⟩

def Within (p : ℕ → Prop) (a b : ℕ) : Prop := ∃ i, a ≤ i ∧ i < b ∧ p i

theorem Within.widen {p : ℕ → Prop} {a a' b b' : ℕ} (h : Within p a b) (ha : a' ≤ a) (hb : b ≤ b') :
    Within p a' b' := by
  obtain ⟨i, hle, hlt, hp⟩ := h
  exact ⟨i, ha.trans hle, hlt.trans_le hb, hp⟩

def SignalSeen (w w' : World) : Prop :=
  w.interrupted = true ∨ Within (fun t => ∃ s, w.env.signals t s = true) w.clock w'.clock

def InputFailed (s s' : InStream) : Prop :=
  s.errorFlag = true ∨
    Within (fun i => s.readFault i ≠ none ∨ s.ungetFault i = true) s.calls s'.calls

def Refused (s s' : OutStream) : Prop :=
  Within (fun i => ∃ kept drained, s.script i = .fail kept drained) s.ops s'.ops

def OutputFailed (s s' : OutStream) : Prop := s.errorFlag = true ∨ Refused s s'

def isAlloc : LibraryCall → Bool
  | .alloc _ => true
  | _ => false

def isSeal : LibraryCall → Bool
  | .seal _ => true
  | _ => false

/-- The allocations that gave no block. -/
def refusals (w : World) : ℤ := (w.calls.countP isAlloc : ℤ) - w.heap.length

def seals (w : World) : ℕ := w.calls.countP isSeal

/-- An allocation between the two was refused, to the program or in a call of the library. -/
def AllocationFailed (w w' : World) : Prop :=
  refusals w < refusals w' ∨ seals w < seals w' ∧ w.env.sodium.alloc = none

/-- A status that says what went wrong between two worlds. -/
inductive Blamed : SaltStatus → World → World → Prop where
  | signal {w w' : World} (h : SignalSeen w w') : Blamed .errSignal w w'
  | input {w w' : World} (h : InputFailed w.input w'.input) : Blamed .errIo w w'
  | output {w w' : World} (sink : Sink) (h : OutputFailed (w.sink sink) (w'.sink sink)) :
    Blamed .errIo w w'
  | allocation {w w' : World} (h : AllocationFailed w w') : Blamed .errInternal w w'
  | library {w w' : World} (h : seals w < seals w') (hinit : w.env.sodium.init < 0) :
    Blamed .errCrypto w w'

theorem Blamed.ne_ok {rc : SaltStatus} {w w' : World} (h : Blamed rc w w') : rc ≠ .ok := by
  cases h <;> decide

structure InputElapsed (s s' : InStream) : Prop where
  readFault : s'.readFault = s.readFault
  ungetFault : s'.ungetFault = s.ungetFault
  calls : s.calls ≤ s'.calls
  errorFlag : s'.errorFlag = true → InputFailed s s'

structure OutputElapsed (s s' : OutStream) : Prop where
  script : s'.script = s.script
  ops : s.ops ≤ s'.ops
  errorFlag : s'.errorFlag = true → OutputFailed s s'

/-- The second world comes after the first, and its flags have their reasons. -/
structure Elapsed (w w' : World) : Prop where
  env : w'.env = w.env
  clock : w.clock ≤ w'.clock
  interrupted : w'.interrupted = true → SignalSeen w w'
  input : InputElapsed w.input w'.input
  sink : ∀ sink, OutputElapsed (w.sink sink) (w'.sink sink)
  refusals : refusals w ≤ refusals w'
  refused : FaultShadows.refusals w < FaultShadows.refusals w' → ∃ t, w.env.alloc t = none
  seals : seals w ≤ seals w'

theorem InputElapsed.refl (s : InStream) : InputElapsed s s := ⟨rfl, rfl, le_rfl, .inl⟩

theorem OutputElapsed.refl (s : OutStream) : OutputElapsed s s := ⟨rfl, le_rfl, .inl⟩

theorem Elapsed.refl (w : World) : Elapsed w w :=
  ⟨rfl, le_rfl, .inl, .refl _, fun _ => .refl _, le_rfl, fun h => absurd h (lt_irrefl _), le_rfl⟩

theorem SignalSeen.across {r s t u : World} (h : SignalSeen s t) (hr : Elapsed r s)
    (hst : s.clock ≤ t.clock) (htu : t.clock ≤ u.clock) : SignalSeen r u := by
  rcases h with hflag | hwithin
  · exact (hr.interrupted hflag).imp_right fun h => h.widen le_rfl (hst.trans htu)
  · rw [hr.env] at hwithin
    exact .inr (hwithin.widen hr.clock htu)

theorem InputFailed.across {r s t u : InStream} (h : InputFailed s t) (hr : InputElapsed r s)
    (hst : s.calls ≤ t.calls) (htu : t.calls ≤ u.calls) : InputFailed r u := by
  rcases h with hflag | hwithin
  · exact (hr.errorFlag hflag).imp_right fun h => h.widen le_rfl (hst.trans htu)
  · rw [hr.readFault, hr.ungetFault] at hwithin
    exact .inr (hwithin.widen hr.calls htu)

theorem Refused.across {r s t u : OutStream} (h : Refused s t) (hr : OutputElapsed r s)
    (htu : t.ops ≤ u.ops) : Refused r u := by
  unfold Refused at h
  rw [hr.script] at h
  exact h.widen hr.ops htu

theorem OutputFailed.across {r s t u : OutStream} (h : OutputFailed s t) (hr : OutputElapsed r s)
    (hst : s.ops ≤ t.ops) (htu : t.ops ≤ u.ops) : OutputFailed r u := by
  rcases h with hflag | hrefused
  · exact (hr.errorFlag hflag).imp_right fun h => h.widen le_rfl (hst.trans htu)
  · exact .inr (hrefused.across hr htu)

structure Later (w w' : World) : Prop where
  clock : w.clock ≤ w'.clock
  calls : w.input.calls ≤ w'.input.calls
  ops : ∀ sink, (w.sink sink).ops ≤ (w'.sink sink).ops
  refusals : refusals w ≤ refusals w'
  seals : seals w ≤ seals w'

theorem Elapsed.later {w w' : World} (h : Elapsed w w') : Later w w' :=
  ⟨h.clock, h.input.calls, fun sink => (h.sink sink).ops, h.refusals, h.seals⟩

theorem AllocationFailed.across {r s t u : World} (h : AllocationFailed s t) (hr : Elapsed r s)
    (htu : Later t u) : AllocationFailed r u := by
  rcases h with hlt | ⟨hlt, hnone⟩
  · exact .inl (hr.refusals.trans_lt (hlt.trans_le htu.refusals))
  · exact .inr ⟨hr.seals.trans_lt (hlt.trans_le htu.seals), hr.env ▸ hnone⟩

theorem Later.trans {r s t : World} (h : Later r s) (h' : Later s t) : Later r t :=
  ⟨h.clock.trans h'.clock, h.calls.trans h'.calls, fun sink => (h.ops sink).trans (h'.ops sink),
    h.refusals.trans h'.refusals, h.seals.trans h'.seals⟩

theorem Blamed.across {rc : SaltStatus} {r s t u : World} (h : Blamed rc s t) (hr : Elapsed r s)
    (hst : Later s t) (htu : Later t u) : Blamed rc r u := by
  cases h with
  | signal h => exact .signal (h.across hr hst.clock htu.clock)
  | input h => exact .input (h.across hr.input hst.calls htu.calls)
  | output sink h => exact .output sink (h.across (hr.sink sink) (hst.ops sink) (htu.ops sink))
  | allocation h => exact .allocation (h.across hr htu)
  | library h hinit =>
    exact .library (hr.seals.trans_lt (h.trans_le htu.seals)) (hr.env ▸ hinit)

theorem Blamed.before {rc : SaltStatus} {r s t : World} (h : Blamed rc s t) (hr : Elapsed r s)
    (hst : Later s t) : Blamed rc r t := h.across hr hst (Elapsed.refl t).later

theorem Blamed.behind {rc : SaltStatus} {s t u : World} (h : Blamed rc s t) (hst : Later s t)
    (htu : Later t u) : Blamed rc s u := h.across (.refl s) hst htu

theorem Elapsed.trans {r s t : World} (h : Elapsed r s) (h' : Elapsed s t) : Elapsed r t where
  env := h'.env.trans h.env
  clock := h.clock.trans h'.clock
  interrupted hflag := (h'.interrupted hflag).across h h'.clock le_rfl
  input := ⟨h'.input.readFault.trans h.input.readFault, h'.input.ungetFault.trans h.input.ungetFault,
    h.input.calls.trans h'.input.calls,
    fun hflag => (h'.input.errorFlag hflag).across h.input h'.input.calls le_rfl⟩
  sink sink := ⟨(h'.sink sink).script.trans (h.sink sink).script,
    (h.sink sink).ops.trans (h'.sink sink).ops,
    fun hflag => ((h'.sink sink).errorFlag hflag).across (h.sink sink) (h'.sink sink).ops le_rfl⟩
  refusals := h.refusals.trans h'.refusals
  refused hlt := by
    rcases lt_or_ge (FaultShadows.refusals r) (FaultShadows.refusals s) with hfirst | hfirst
    · exact h.refused hfirst
    · exact h.env ▸ h'.refused (hfirst.trans_lt hlt)
  seals := h.seals.trans h'.seals

/-- A world without the signals that came before it. -/
def lowered (w : World) : World := { w with interrupted := false }

theorem lowered_later (w : World) : Later (lowered w) w :=
  ⟨le_rfl, le_rfl, fun sink => by cases sink <;> exact le_rfl, le_rfl, le_rfl⟩

theorem Elapsed.lowered {w w' : World} (h : Elapsed w w') :
    Elapsed (lowered w) (FaultShadows.lowered w') where
  env := h.env
  clock := h.clock
  interrupted hflag := Bool.noConfusion hflag
  input := h.input
  sink sink := by
    cases sink
    · exact h.sink .out
    · exact h.sink .err
  refusals := h.refusals
  refused := h.refused
  seals := h.seals

/-- No fault shows in the program. -/
structure Plain {α : Type} (m : Cli α) : Prop where
  commutes : Commutes faultless m
  elapsed : ∀ w, Elapsed w (m w).final

/-- The program goes along with its shadow, or its result says which fault kept it from that. -/
abbrev Beside {α : Type} (shows : α → SaltStatus → Prop) (m : Cli α) : Prop :=
  Shadowed faultless Elapsed (fun a w w' => ∃ rc, shows a rc ∧ Blamed rc w w') m

/-- Whatever faults are still to come, the result says `rc` or one of them. -/
def Passes {α : Type} (shows : α → SaltStatus → Prop) (rc : SaltStatus) (m : Cli α) : Prop :=
  ∀ w, Ends m w fun a w' => ∃ rc', shows a rc' ∧ (rc' = rc ∨ Blamed rc' w w')

section Rules
variable {α β : Type} {shows : α → SaltStatus → Prop} {tells : β → SaltStatus → Prop} {m : Cli α}
  {f : α → Cli β}

theorem Plain.ret (a : α) : Plain (pure a : Cli α) := ⟨.ret a, .refl⟩

theorem Plain.bind (hm : Plain m) (hf : ∀ a, Plain (f a)) : Plain (m >>= f) :=
  ⟨hm.commutes.bind fun a => (hf a).commutes,
    fun w => (hm.elapsed w).trans ((hf (m w).value).elapsed (m w).final)⟩

theorem Plain.ite {c : Prop} [Decidable c] {n : Cli α} (hm : Plain m) (hn : Plain n) :
    Plain (if c then m else n) := by
  split_ifs <;> assumption

theorem Plain.read {f : World → α} (h : ∀ w, f (faultless w) = f w) : Plain (Traced.read f) :=
  ⟨.read h, .refl⟩

theorem Plain.shadowed {B : α → World → World → Prop} (hm : Plain m) :
    Shadowed faultless Elapsed B m := .of_commutes hm.commutes hm.elapsed

theorem Plain.beside (hm : Plain m) : Beside shows m := hm.shadowed

theorem Beside.mono {shows' : α → SaltStatus → Prop} (hm : Beside shows m)
    (h : ∀ a rc, shows a rc → shows' a rc) : Beside shows' m :=
  Shadowed.mono hm fun _ _ _ ⟨rc, hshows, hblamed⟩ => ⟨rc, h _ rc hshows, hblamed⟩

theorem beside_bind {B : α → World → World → Prop} (hm : Shadowed faultless Elapsed B m)
    (hf : ∀ a, Beside tells (f a))
    (hleft : ∀ a s s', Elapsed s s' → B a s s' → Ends (f a) s' fun b t =>
      ∃ rc, tells b rc ∧ (Blamed rc s s' ∨ Blamed rc s' t)) : Beside tells (m >>= f) := by
  refine Shadowed.bind (fun _ _ _ => .trans) ?_ hm hf ?_
  · rintro b r s t hrs hst ⟨rc, htells, hblamed⟩
    exact ⟨rc, htells, hblamed.before hrs hst.later⟩
  · intro a s s' hss hb
    have hrest := ((hf a).related s').later
    obtain ⟨rc, htells, hblamed | hblamed⟩ := hleft a s s' hss hb
    · exact ⟨rc, htells, hblamed.behind hss.later hrest⟩
    · exact ⟨rc, htells, hblamed.before hss hrest⟩

/-- Behind a blamed result the rest of the program passes the blame on. -/
theorem Beside.bind (hm : Beside shows m) (hf : ∀ a, Beside tells (f a))
    (hleft : ∀ a rc, shows a rc → rc ≠ .ok → Passes tells rc (f a)) : Beside tells (m >>= f) :=
  beside_bind hm hf fun a _ s' _ ⟨rc, hshows, hblamed⟩ => by
    obtain ⟨rc', htells, rfl | hblamed'⟩ := hleft a rc hshows hblamed.ne_ok s'
    · exact ⟨rc', htells, .inl hblamed⟩
    · exact ⟨rc', htells, .inr hblamed'⟩

theorem Plain.then (hm : Plain m) (hf : ∀ a, Beside tells (f a)) : Beside tells (m >>= f) :=
  have hm : Beside (fun _ _ => False) m := hm.beside
  hm.bind hf fun _ _ h => h.elim

theorem Passes.ret {a : α} {rc : SaltStatus} (h : shows a rc) : Passes shows rc (pure a : Cli α) :=
  fun _ => .ret ⟨rc, h, .inl rfl⟩

theorem Passes.bind (hm : ∀ w, Elapsed w (m w).final) {rc : SaltStatus}
    (hf : ∀ a, Passes tells rc (f a)) (hf' : ∀ a w, Elapsed w (f a w).final) :
    Passes tells rc (m >>= f) := by
  intro w
  obtain ⟨rc', htells, hrc⟩ := hf (m w).value (m w).final
  exact ⟨rc', htells, hrc.imp_right fun h => h.before (hm w) (hf' _ _).later⟩

theorem Beside.passes (hm : Beside shows m) {rc : SaltStatus}
    (h : ∀ w, shows (m (faultless w)).value rc) : Passes shows rc m := fun w => by
  rcases hm.shadow w with ⟨hv, -⟩ | ⟨rc', hshows, hblamed⟩
  · exact ⟨rc, hv ▸ h w, .inl rfl⟩
  · exact ⟨rc', hshows, .inr hblamed⟩

/-- `if (rc != SALT_OK) return rc;` -/
theorem Passes.stopped {a rc : SaltStatus} (ha : a ≠ .ok) {n tail : Cli β}
    (hn : Passes tells rc n) : Passes tells rc (if a ≠ .ok then n else tail) := by
  rw [if_pos ha]
  exact hn

end Rules

/-- The part of a world that faults from outside show in. -/
def outward (w : World) : (Env × ℕ × Bool) × InStream × OutStream × OutStream :=
  ((w.env, w.clock, w.interrupted), w.input, w.out, w.err)

/-- The part of a world that any faults show in. -/
def exposed (w : World) : ((Env × ℕ × Bool) × InStream × OutStream × OutStream) × ℤ × ℕ :=
  (outward w, refusals w, seals w)

theorem elapsed_of_outward {w w' : World} (h : outward w' = outward w)
    (hrefusals : refusals w ≤ refusals w')
    (hrefused : refusals w < refusals w' → ∃ t, w.env.alloc t = none) (hseals : seals w ≤ seals w') :
    Elapsed w w' := by
  simp only [outward, Prod.mk.injEq] at h
  obtain ⟨⟨henv, hclock, hint⟩, hin, hout, herr⟩ := h
  have hsame {s s' : OutStream} (h : s' = s) : OutputElapsed s s' := h ▸ .refl s
  refine ⟨henv, hclock.ge, fun hi => .inl (hint ▸ hi), hin ▸ .refl _, fun sink => ?_, hrefusals,
    hrefused, hseals⟩
  cases sink
  · exact hsame hout
  · exact hsame herr

theorem elapsed_of_exposed {w w' : World} (h : exposed w' = exposed w) : Elapsed w w' := by
  simp only [exposed, Prod.mk.injEq] at h
  exact elapsed_of_outward h.1 h.2.1.ge (fun hlt => absurd hlt h.2.1.not_gt) h.2.2.ge

theorem exposed_heap (w : World) {heap : Heap} (h : heap.length = w.heap.length) :
    exposed { w with heap := heap } = exposed w := by
  have hrefusals : refusals { w with heap := heap } = refusals w := by simp only [refusals, h]
  exact congrArg (fun n => (outward w, n, seals w)) hrefusals

theorem exposed_mlock (w : World) (len : ℕ) : exposed (record (.mlock len) w) = exposed w := by
  simp only [exposed, refusals, seals, record, List.countP_append, List.countP_singleton, isAlloc, isSeal]
  rfl

theorem refusals_refused (w : World) (size : ℕ) :
    refusals (record (.alloc size) w) = refusals w + 1 := by
  simp only [refusals, record, List.countP_append, List.countP_singleton, isAlloc, if_true]
  omega

theorem refusals_served (w : World) (size : ℕ) (block : Block) :
    refusals { record (.alloc size) w with heap := w.heap ++ [block] } = refusals w := by
  simp only [refusals, record, List.countP_append, List.countP_singleton, isAlloc, if_true,
    List.length_append, List.length_singleton]
  omega

section Atomic
variable {α : Type} {f : World → α × World} {w : World}

theorem deliver_seen_signal (h : w.deliver.interrupted = true) :
    w.interrupted = true ∨ ∃ s, w.env.signals w.clock s = true := by
  simp only [World.deliver, Bool.or_eq_true, Bool.and_eq_true] at h
  rcases h with (h | h) | h
  · exact .inl h
  · exact .inr ⟨_, h.1⟩
  · exact .inr ⟨_, h.1⟩

/-- The signals delivered at a call are those of its clock. -/
theorem elapsed_atomic (hclock : ∀ w, (f w).2.clock = w.clock) (h : Elapsed w.deliver (f w.deliver).2) :
    Elapsed w (Salt.atomic f w).final where
  env := h.env
  clock := by
    change w.clock ≤ (f w.deliver).2.clock + 1
    rw [hclock]
    exact Nat.le_succ _
  interrupted hflag := by
    have hend : (Salt.atomic f w).final.clock = w.clock + 1 := congrArg (· + 1) (hclock w.deliver)
    rcases h.interrupted hflag with hseen | hwithin
    · refine (deliver_seen_signal hseen).imp_right fun hsignal => ⟨w.clock, le_rfl, ?_, hsignal⟩
      rw [hend]
      exact Nat.lt_succ_self _
    · refine .inr (hwithin.widen le_rfl ?_)
      rw [hclock, hend]
      exact Nat.le_succ _
  input := h.input
  sink sink := h.sink sink
  refusals := h.refusals
  refused := h.refused
  seals := h.seals

theorem Plain.atomic (hf : ∀ w, f (faultless w) = ((f w).1, faultless (f w).2))
    (hexposed : ∀ w, exposed (f w).2 = exposed w) : Plain (Salt.atomic f) where
  commutes := Commutes.step fun w => by
    have hd : (faultless w).deliver = faultless w.deliver := rfl
    rw [hd, hf]
    rfl
  elapsed w := elapsed_atomic (fun w => congrArg (·.1.1.2.1) (hexposed w))
    (elapsed_of_exposed (hexposed w.deliver))

theorem Plain.step (hf : ∀ w, f (faultless w) = ((f w).1, faultless (f w).2))
    (hexposed : ∀ w, exposed (f w).2 = exposed w) : Plain (Traced.step f) :=
  ⟨.step hf, fun w => elapsed_of_exposed (hexposed w)⟩

theorem Plain.update {g : World → World} (hg : ∀ w, g (faultless w) = faultless (g w))
    (hexposed : ∀ w, exposed (g w) = exposed w) : Plain (Traced.update g) :=
  ⟨.update hg, fun w => elapsed_of_exposed (hexposed w)⟩

end Atomic

theorem getState_plain : Plain getState := .read fun _ => rfl

theorem modifyState_plain (f : CliState → CliState) : Plain (modifyState f) :=
  .update (fun _ => rfl) fun _ => rfl

theorem undefinedBehaviour_plain : Plain undefinedBehaviour := .update (fun _ => rfl) fun _ => rfl

theorem sodiumMlock_plain (len : ℕ) : Plain (sodiumMlock len) :=
  .atomic (fun _ => rfl) fun w => exposed_mlock w len

theorem sodiumMunlock_plain (id len : ℕ) : Plain (sodiumMunlock id len) :=
  .atomic (fun _ => rfl) fun w => exposed_heap w (List.length_modify ..)

theorem sodiumMemzero_plain (id len : ℕ) : Plain (sodiumMemzero id len) :=
  .atomic (fun _ => rfl) fun w => exposed_heap w (List.length_modify ..)

theorem saltCliFreeImpl_plain (id : ℕ) : Plain (saltCliFreeImpl id) :=
  .atomic (fun _ => rfl) fun w => exposed_heap w (List.length_modify ..)

theorem scrubPositional_plain (i len : ℕ) : Plain (scrubPositional i len) :=
  .atomic (fun _ => rfl) fun _ => rfl

theorem markSealPoll_plain : Plain markSealPoll := .update (fun _ => rfl) fun _ => rfl

theorem editBlock_plain (id : ℕ) (f : Bytes → Option Bytes) : Plain (editBlock id f) := by
  refine .update (fun w => ?_) fun w => ?_
  · have hblock : blockBytes (faultless w) id = blockBytes w id := rfl
    simp only [hblock]
    cases f (blockBytes w id) <;> rfl
  · cases f (blockBytes w id) with
    | none => rfl
    | some bytes => exact exposed_heap w (List.length_modify ..)

theorem readByte_plain (id i : ℕ) : Plain (readByte id i) := by
  refine .step (fun w => ?_) fun w => ?_
  · have hblock : blockBytes (faultless w) id = blockBytes w id := rfl
    simp only [hblock]
    cases (blockBytes w id)[i]? <;> rfl
  · cases (blockBytes w id)[i]? <;> rfl

theorem parseKeyOfState_plain : Plain parseKeyOfState := by
  refine .step (fun w => ?_) fun w => ?_
  · have hp : parseTrimmedKey (faultless w) = parseTrimmedKey w := rfl
    rw [hp]
    cases parseTrimmedKey w <;> rfl
  · cases parseTrimmedKey w <;> rfl

theorem saltCliAllocImpl_elapsed (size : ℕ) (w : World) : Elapsed w (saltCliAllocImpl size w).final := by
  refine elapsed_atomic (fun w => ?_) ?_
  · cases w.env.alloc w.clock <;> rfl
  · cases halloc : w.deliver.env.alloc w.deliver.clock with
    | none =>
      have hcount := refusals_refused w.deliver size
      exact elapsed_of_outward rfl (by simp only [hcount]; omega) (fun _ => ⟨_, halloc⟩)
        (by simp [seals, record, isSeal])
    | some content =>
      have hcount := refusals_served w.deliver size ⟨size, fresh content size, []⟩
      exact elapsed_of_outward rfl hcount.ge (fun hlt => absurd hlt hcount.not_gt)
        (by simp [seals, record])

theorem saltCliAllocImpl_beside (size : ℕ) :
    Beside (fun r rc => r = none ∧ rc = .errInternal) (saltCliAllocImpl size) := by
  refine ⟨saltCliAllocImpl_elapsed size, fun w => ?_⟩
  cases halloc : w.env.alloc w.clock with
  | none =>
    have hrefused : (saltCliAllocImpl size w).final = (record (.alloc size) w.deliver).tick := by
      simp [saltCliAllocImpl, atomic, World.deliver, halloc]
    refine .inr ⟨.errInternal, ⟨?_, rfl⟩, .allocation (.inl ?_)⟩
    · simp [saltCliAllocImpl, atomic, World.deliver, halloc]
    · rw [hrefused]
      have hcount : refusals (record (.alloc size) w.deliver).tick = refusals w + 1 :=
        refusals_refused w.deliver size
      omega
  | some content =>
    have hcalm : (faultless w).env.alloc (faultless w).clock = some content := by
      change some ((w.env.alloc w.clock).getD _) = _
      rw [halloc, Option.getD_some]
    refine .inl ?_
    simp only [saltCliAllocImpl, atomic, step_value, step_final, World.deliver, hcalm, halloc]
    exact ⟨rfl, rfl⟩

section Seal
variable (W : SizeWidth) (sodium : Sodium) (message publicKeyB64 output : Bytes)
  (outputWritten : Option ℕ) (error : Option Bytes)

theorem sealLocked_faultless :
    sealLocked W (faultlessSodium sodium) message publicKeyB64 output outputWritten error =
        sealLocked W sodium message publicKeyB64 output outputWritten error ∨
      (sealLocked W sodium message publicKeyB64 output outputWritten error).status = .errInternal ∧
        sodium.alloc = none := by
  cases halloc : sodium.alloc with
  | some content =>
    refine .inl ?_
    have hsame : (faultlessSodium sodium).alloc = sodium.alloc := by
      rw [halloc]
      exact congrArg some (congrArg (Option.getD · _) halloc)
    simp only [sealLocked, sealCiphertext, hsame]
    rfl
  | none =>
    have hdecode : decodePublicKey W (faultlessSodium sodium) publicKeyB64
        (fresh (faultlessSodium sodium).scratch cryptoBoxPublicKeyBytes) =
      decodePublicKey W sodium publicKeyB64 (fresh sodium.scratch cryptoBoxPublicKeyBytes) := rfl
    simp only [sealLocked, hdecode]
    split_ifs
    · exact .inl rfl
    · exact .inl rfl
    · refine .inr ⟨?_, trivial⟩
      simp only [sealCiphertext, halloc]

theorem saltSealBase64Keylen_faultless (message publicKeyB64 output : Option Bytes) :
    let calm := saltSealBase64Keylen W (faultlessSodium sodium) message publicKeyB64 output
      outputWritten error
    let r := saltSealBase64Keylen W sodium message publicKeyB64 output outputWritten error
    calm = r ∨ r.status = .errInternal ∧ sodium.alloc = none ∨ r.status = .errCrypto ∧ sodium.init < 0 := by
  have hcalm : ¬ (faultlessSodium sodium).init < 0 := Int.not_lt.2 (Int.le_max_right _ _)
  intro calm r
  by_cases hv : (saltValidateSealInputs message publicKeyB64 output error).1 = .ok
  · by_cases hinit : sodium.init < 0
    · refine .inr (.inr ⟨?_, hinit⟩)
      simp only [r, saltSealBase64Keylen, hv, hinit, ne_eq, not_true_eq_false, if_false, if_true]
    · simp only [calm, r, saltSealBase64Keylen, hv, hinit, hcalm, ne_eq, not_true_eq_false, if_false]
      cases message with
      | none => exact .inl rfl
      | some message => cases publicKeyB64 with
        | none => exact .inl rfl
        | some publicKeyB64 => cases output with
          | none => exact .inl rfl
          | some output =>
            rcases sealLocked_faultless W sodium message publicKeyB64 output
              (outputWritten.map fun _ => 0)
              (saltValidateSealInputs (some message) (some publicKeyB64) (some output) error).2
              with hsame | hfailed
            · exact .inl (congrArg (sealCleanup sodium _) hsame)
            · exact .inr (.inl hfailed)
  · refine .inl ?_
    simp only [calm, r, saltSealBase64Keylen, hv, ne_eq, not_false_eq_true, if_true]

end Seal

theorem saltCliSealImpl_counted (w : World) :
    refusals (saltCliSealImpl w).final = refusals w ∧ seals (saltCliSealImpl w).final = seals w + 1 := by
  refine ⟨?_, ?_⟩
  · have hcalls : (saltCliSealImpl w).final.calls.countP isAlloc = w.calls.countP isAlloc := by
      simp [saltCliSealImpl, atomic, record, World.tick, World.deliver, isAlloc]
    have hlen : (saltCliSealImpl w).final.heap.length = w.heap.length := by
      simp only [saltCliSealImpl, atomic, step_final, record, World.tick, World.deliver]
      split
      · exact List.length_modify ..
      · rfl
    simp only [refusals, hcalls, hlen]
  · simp [seals, saltCliSealImpl, atomic, record, World.tick, World.deliver, isSeal]

theorem saltCliSealImpl_beside : Beside Eq saltCliSealImpl := by
  refine ⟨fun w => elapsed_atomic (fun _ => rfl) (elapsed_of_outward rfl ?_ ?_ ?_), fun w => ?_⟩
  · exact (saltCliSealImpl_counted w).1.ge
  · exact fun hlt => absurd hlt (saltCliSealImpl_counted w).1.not_gt
  · exact (saltCliSealImpl_counted w).2 ▸ Nat.le_succ _
  have hcount : seals w < seals (saltCliSealImpl w).final :=
    (saltCliSealImpl_counted w).2 ▸ Nat.lt_succ_self _
  have hseal : sealState (faultless w).deliver = sealState w.deliver ∨
      (sealState w.deliver).status = .errInternal ∧ w.env.sodium.alloc = none ∨
      (sealState w.deliver).status = .errCrypto ∧ w.env.sodium.init < 0 :=
    saltSealBase64Keylen_faultless ..
  rcases hseal with hsame | ⟨hrc, halloc⟩ | ⟨hrc, hinit⟩
  · refine .inl ?_
    simp only [saltCliSealImpl, atomic, step_value, step_final, hsame]
    exact ⟨trivial, rfl⟩
  · exact .inr ⟨.errInternal, hrc, .allocation (.inr ⟨hcount, halloc⟩)⟩
  · exact .inr ⟨.errCrypto, hrc, .library hcount hinit⟩

theorem loadInterrupted_ends (w : World) :
    Ends loadInterrupted w fun a w' => Elapsed w w' ∧ (a = true → SignalSeen w w') := by
  have helapsed : Elapsed w (loadInterrupted w).final :=
    elapsed_atomic (fun _ => rfl) (elapsed_of_exposed rfl)
  exact ⟨helapsed, fun hflag => helapsed.interrupted hflag⟩

section Streams
variable {s : OutStream}

theorem write_elapsed (data : Bytes) (s : OutStream) : OutputElapsed s (s.write data).2 := by
  unfold OutStream.write
  cases hs : s.script s.ops with
  | ok n => exact ⟨rfl, Nat.le_succ _, .inl⟩
  | fail kept n => exact ⟨rfl, Nat.le_succ _, fun _ => .inr ⟨_, le_rfl, Nat.lt_succ_self _, kept, n, hs⟩⟩

theorem flush_elapsed (s : OutStream) : OutputElapsed s s.flush.2 := by
  unfold OutStream.flush
  cases hs : s.script s.ops with
  | ok n => exact ⟨rfl, Nat.le_succ _, .inl⟩
  | fail kept n => exact ⟨rfl, Nat.le_succ _, fun _ => .inr ⟨_, le_rfl, Nat.lt_succ_self _, kept, n, hs⟩⟩

theorem write_faultless (data : Bytes) (s : OutStream) :
    (faultlessOut s).write data = ((s.write data).1, faultlessOut (s.write data).2) ∨
      (s.write data).1 = false ∧ Refused s (s.write data).2 := by
  unfold OutStream.write
  cases hs : s.script s.ops with
  | ok n =>
    have hcalm : (faultlessOut s).script (faultlessOut s).ops = .ok n := congrArg faultlessWrite hs
    rw [hcalm]
    exact .inl rfl
  | fail kept n => exact .inr ⟨rfl, _, le_rfl, Nat.lt_succ_self _, kept, n, hs⟩

theorem flush_faultless (s : OutStream) :
    (faultlessOut s).flush = (s.flush.1, faultlessOut s.flush.2) ∨
      s.flush.1 = false ∧ Refused s s.flush.2 := by
  unfold OutStream.flush
  cases hs : s.script s.ops with
  | ok n =>
    have hcalm : (faultlessOut s).script (faultlessOut s).ops = .ok n := congrArg faultlessWrite hs
    rw [hcalm]
    exact .inl rfl
  | fail kept n => exact .inr ⟨rfl, _, le_rfl, Nat.lt_succ_self _, kept, n, hs⟩

end Streams

section Sinks
variable (sink : Sink)

abbrev SinkRefused {α : Type} (shows : α → Prop) (a : α) (w w' : World) : Prop :=
  shows a ∧ Refused (w.sink sink) (w'.sink sink)

theorem sinkCall_shadowed {call : OutStream → Bool × OutStream}
    (helapsed : ∀ s, OutputElapsed s (call s).2)
    (hcall : ∀ s, call (faultlessOut s) = ((call s).1, faultlessOut (call s).2) ∨
      (call s).1 = false ∧ Refused s (call s).2) :
    Shadowed faultless Elapsed (SinkRefused sink fun ok => ok = false)
      (atomic fun w => ((call (w.sink sink)).1, w.setSink sink (call (w.sink sink)).2)) := by
  have hset (w : World) (s : OutStream) (h : OutputElapsed (w.sink sink) s) :
      Elapsed w (w.setSink sink s) := by
    cases sink
    · exact ⟨rfl, le_rfl, .inl, .refl _, fun sink => by cases sink; exacts [h, .refl _],
        le_rfl, fun h => absurd h (lt_irrefl _), le_rfl⟩
    · exact ⟨rfl, le_rfl, .inl, .refl _, fun sink => by cases sink; exacts [.refl _, h],
        le_rfl, fun h => absurd h (lt_irrefl _), le_rfl⟩
  refine ⟨fun w => elapsed_atomic (fun w => by cases sink <;> rfl) (hset _ _ (helapsed _)), fun w => ?_⟩
  have hsink : (faultless w).sink sink = faultlessOut (w.sink sink) := by cases sink <;> rfl
  have hback (s : OutStream) : (faultless w).deliver.setSink sink (faultlessOut s) =
      faultless (w.deliver.setSink sink s) := by cases sink <;> rfl
  have hdeliver : w.deliver.sink sink = w.sink sink := by cases sink <;> rfl
  have hdeliver' : (faultless w).deliver.sink sink = (faultless w).sink sink := by cases sink <;> rfl
  rcases hcall (w.sink sink) with hgood | ⟨hfail, hrefused⟩
  · refine .inl ?_
    simp only [atomic, step_value, step_final, hdeliver, hdeliver', hsink, hgood, hback]
    exact ⟨trivial, rfl⟩
  · refine .inr ⟨?_, ?_⟩
    · simp only [atomic, step_value, hdeliver, hfail]
    · simp only [atomic, step_final, hdeliver]
      cases sink <;> exact hrefused

theorem SinkRefused.beside {m : Cli Bool}
    (hm : Shadowed faultless Elapsed (SinkRefused sink fun ok => ok = false) m) :
    Beside (fun ok rc => ok = false ∧ rc = .errIo) m :=
  hm.mono fun _ _ _ ⟨hok, hrefused⟩ => ⟨.errIo, ⟨hok, rfl⟩, .output sink (.inr hrefused)⟩

theorem vfprintf_shadowed (data : Bytes) :
    Shadowed faultless Elapsed (SinkRefused sink fun ok => ok = false) (vfprintf sink data) :=
  sinkCall_shadowed sink (write_elapsed data) (write_faultless data)

theorem fflush_shadowed :
    Shadowed faultless Elapsed (SinkRefused sink fun ok => ok = false) (fflush sink) :=
  sinkCall_shadowed sink flush_elapsed flush_faultless

theorem vfprintf_beside (data : Bytes) :
    Beside (fun ok rc => ok = false ∧ rc = .errIo) (vfprintf sink data) :=
  SinkRefused.beside sink (vfprintf_shadowed sink data)

theorem fflush_beside : Beside (fun ok rc => ok = false ∧ rc = .errIo) (fflush sink) :=
  SinkRefused.beside sink (fflush_shadowed sink)

end Sinks

/-- The status of a stream: the only fault it can say is an I/O error. -/
def IoStatus (a rc : SaltStatus) : Prop := a = rc ∧ rc = .errIo

section Reports
variable (stream : Sink) (useError : Bool) (message text : Bytes) (rc : SaltStatus)

theorem saltCliSetError_plain : Plain (saltCliSetError useError message rc) :=
  (modifyState_plain _).bind fun _ => .ret _

theorem saltCliFlushStream_beside :
    Beside IoStatus (saltCliFlushStream stream useError message) :=
  (fflush_beside stream).bind
    (fun _ => .ite (saltCliSetError_plain useError message .errIo).beside (Plain.ret _).beside)
    fun ok rc ⟨hok, hrc⟩ _ w => by
      subst hok hrc
      exact ⟨.errIo, ⟨rfl, rfl⟩, .inl rfl⟩

theorem saltCliWriteStream_beside :
    Beside IoStatus (saltCliWriteStream stream useError message text) :=
  (vfprintf_beside stream text).bind
    (fun _ => .ite (saltCliSetError_plain useError message .errIo).beside
      (saltCliFlushStream_beside stream useError message))
    fun ok rc ⟨hok, hrc⟩ _ w => by
      subst hok hrc
      exact ⟨.errIo, ⟨rfl, rfl⟩, .inl rfl⟩

/-- A text that does not get to its stream was refused there. -/
theorem saltCliWriteStream_shadowed : Shadowed faultless Elapsed (SinkRefused stream fun _ => True)
    (saltCliWriteStream stream useError message text) := by
  have hearlier {α : Type} (a : α) (r s t : World) (hrs : Elapsed r s) (_ : Elapsed s t)
      (h : SinkRefused stream (fun _ => True) a s t) : SinkRefused stream (fun _ => True) a r t :=
    ⟨trivial, h.2.across (hrs.sink stream) le_rfl⟩
  have hflush : Shadowed faultless Elapsed (SinkRefused stream fun _ => True)
      (saltCliFlushStream stream useError message) := by
    refine Shadowed.bind (fun _ _ _ => .trans) hearlier (fflush_shadowed stream)
      (fun _ => .ite (Plain.shadowed (saltCliSetError_plain ..)) (Plain.shadowed (.ret _))) ?_
    rintro _ s s' - ⟨rfl, hrefused⟩
    exact ⟨trivial, hrefused.across (.refl _)
      (((saltCliSetError_plain useError message .errIo).elapsed s').sink stream).ops⟩
  refine Shadowed.bind (fun _ _ _ => .trans) hearlier (vfprintf_shadowed stream text)
    (fun _ => .ite (Plain.shadowed (saltCliSetError_plain ..)) hflush) ?_
  rintro _ s s' - ⟨rfl, hrefused⟩
  exact ⟨trivial, hrefused.across (.refl _)
    (((saltCliSetError_plain useError message .errIo).elapsed s').sink stream).ops⟩

theorem saltCliReportStreamStatus_io :
    Beside IoStatus (saltCliReportStreamStatus stream useError rc text) := by
  refine (vfprintf_beside stream text).bind (fun ok => .ite (saltCliSetError_plain ..).beside
    ((saltCliFlushStream_beside ..).bind (fun _ => .ite (Plain.ret _).beside (Plain.ret _).beside) ?_)) ?_
  · rintro a _ ⟨rfl, rfl⟩ _ w
    exact ⟨.errIo, ⟨rfl, rfl⟩, .inl rfl⟩
  · rintro _ _ ⟨rfl, rfl⟩ _ w
    exact ⟨.errIo, ⟨rfl, rfl⟩, .inl rfl⟩

theorem saltCliReportStreamStatus_beside :
    Beside Eq (saltCliReportStreamStatus stream useError rc text) :=
  (saltCliReportStreamStatus_io ..).mono fun _ _ h => h.1

theorem saltCliReportStreamStatus_passes :
    Passes Eq rc (saltCliReportStreamStatus .err useError rc text) := by
  refine (saltCliReportStreamStatus_beside ..).passes fun w => ?_
  obtain ⟨-, error, err, hsent⟩ :=
    saltCliReportStreamStatus_sent (Tracks.refl (faultless w)) useError rc text
  exact (hsent.accepted (faultlessOut_accepts w.err)).1

theorem saltCliReportStateError_beside : Beside Eq (saltCliReportStateError rc) :=
  getState_plain.then fun _ => saltCliReportStreamStatus_beside ..

theorem saltCliReportStateError_passes : Passes Eq rc (saltCliReportStateError rc) :=
  .bind getState_plain.elapsed (fun _ => saltCliReportStreamStatus_passes _ _ _) fun _ =>
    (saltCliReportStreamStatus_beside ..).related

theorem writeStateError_beside : Beside IoStatus writeStateError :=
  getState_plain.then fun _ => saltCliWriteStream_beside ..

theorem reportOrIo_io : Beside IoStatus (reportOrIo rc) :=
  writeStateError_beside.bind (fun _ => .ite (Plain.ret _).beside (Plain.ret _).beside)
    fun _ _ ⟨ha, hrc⟩ hne => .stopped (ha ▸ hne) (.ret ⟨hrc.symm, hrc⟩)

theorem reportOrIo_beside : Beside Eq (reportOrIo rc) := (reportOrIo_io rc).mono fun _ _ h => h.1

theorem reportOrIo_passes : Passes Eq rc (reportOrIo rc) := by
  refine (reportOrIo_beside rc).passes fun w => ?_
  obtain ⟨-, error, err, hsent⟩ := saltCliWriteStream_sent (Tracks.refl (faultless w)) false
    (ascii "failed to write diagnostic") (stateErrorText w.state)
  have hwritten : Ends writeStateError (faultless w) fun a _ => a = .ok :=
    (hsent.accepted (faultlessOut_accepts w.err)).1
  have hend : Ends (reportOrIo rc) (faultless w) fun a _ => a = rc :=
    hwritten.bind fun a w' ha => .ite (fun hne => absurd ha hne) fun _ => .ret rfl
  exact hend

end Reports

theorem loadInterrupted_beside :
    Beside (fun a rc => a = true ∧ rc = .errSignal) loadInterrupted := by
  refine ⟨fun w => (loadInterrupted_ends w).1, fun w => ?_⟩
  cases hflag : w.deliver.interrupted with
  | false => exact .inl ⟨hflag.symm, rfl⟩
  | true => exact .inr ⟨.errSignal, ⟨hflag, rfl⟩, .signal ((loadInterrupted_ends w).2 hflag)⟩

theorem saltCliCheckInterrupted_beside :
    Beside (fun a rc => a = rc ∧ rc = .errSignal) saltCliCheckInterrupted :=
  loadInterrupted_beside.bind
    (fun _ => .ite (saltCliSetError_plain ..).beside (Plain.ret _).beside)
    fun _ _ ⟨ha, hrc⟩ _ w => by
      subst ha hrc
      exact ⟨.errSignal, ⟨rfl, rfl⟩, .inl rfl⟩

theorem saltCliCheckInterrupted_ends (w : World) :
    Ends saltCliCheckInterrupted w fun rc w' => Elapsed w w' ∧ w'.input = w.input ∧
      (rc = .ok ∨ rc = .errSignal ∧ SignalSeen w w') := by
  have hinput : Ends loadInterrupted w fun a w' => Elapsed w w' ∧ (a = true → SignalSeen w w') ∧
    w'.input = w.input := ⟨(loadInterrupted_ends w).1, (loadInterrupted_ends w).2, rfl⟩
  have hpoll : Ends saltCliCheckInterrupted w fun rc w' => w'.input = w.input ∧
      (rc = .ok ∨ rc = .errSignal ∧ SignalSeen w w') := by
    refine hinput.bind fun a w₁ ⟨_, hseen, hin⟩ => .ite (fun ha => ?_) fun _ => .ret ⟨hin, .inl rfl⟩
    exact ⟨hin, .inr ⟨rfl, hseen ha⟩⟩
  exact ⟨saltCliCheckInterrupted_beside.related w, hpoll⟩

section Input
variable {s : InStream}

theorem fread_elapsed (maxLen : ℕ) (s : InStream) : InputElapsed s (s.fread maxLen).2 := by
  refine ⟨rfl, rfl, Nat.le_succ _, fun hflag => ?_⟩
  have hflag : (s.errorFlag || (s.readFault s.calls).isSome) = true := hflag
  rw [Bool.or_eq_true] at hflag
  exact hflag.imp_right fun h => ⟨s.calls, le_rfl, Nat.lt_succ_self _, .inl (Option.isSome_iff_ne_none.1 h)⟩

theorem fread_faultless (maxLen : ℕ) (s : InStream) :
    (faultlessInput s).fread maxLen = ((s.fread maxLen).1, faultlessInput (s.fread maxLen).2) ∨
      (s.fread maxLen).2.errorFlag = true := by
  cases hfault : s.readFault s.calls with
  | none =>
    refine .inl ?_
    simp only [InStream.fread, hfault]
    rfl
  | some n =>
    refine .inr ?_
    simp only [InStream.fread, hfault]
    exact Bool.or_true _

theorem fgetc_elapsed (s : InStream) : InputElapsed s s.fgetc.2 := by
  unfold InStream.fgetc
  cases hfault : s.readFault s.calls with
  | none => cases s.rest <;> exact ⟨rfl, rfl, Nat.le_succ _, .inl⟩
  | some n =>
    exact ⟨rfl, rfl, Nat.le_succ _, fun _ => .inr ⟨s.calls, le_rfl, Nat.lt_succ_self _,
      .inl (by rw [hfault]; exact Option.some_ne_none n)⟩⟩

theorem fgetc_faultless (s : InStream) :
    (faultlessInput s).fgetc = (s.fgetc.1, faultlessInput s.fgetc.2) ∨
      s.fgetc.1 = none ∧ s.fgetc.2.errorFlag = true := by
  unfold InStream.fgetc
  cases hfault : s.readFault s.calls with
  | none =>
    refine .inl ?_
    cases hrest : s.rest <;> simp [faultlessInput, hrest]
  | some n => exact .inr ⟨rfl, rfl⟩

theorem ungetc_elapsed (c : UInt8) (s : InStream) : InputElapsed s (s.ungetc c).2 := by
  unfold InStream.ungetc
  split_ifs <;> exact ⟨rfl, rfl, Nat.le_succ _, .inl⟩

theorem ungetc_faultless (c : UInt8) (s : InStream) :
    (faultlessInput s).ungetc c = ((s.ungetc c).1, faultlessInput (s.ungetc c).2) ∨
      (s.ungetc c).1 = false ∧ InputFailed s (s.ungetc c).2 := by
  unfold InStream.ungetc
  by_cases hfault : s.ungetFault s.calls = true
  · rw [if_pos hfault]
    exact .inr ⟨rfl, .inr ⟨s.calls, le_rfl, Nat.lt_succ_self _, .inr hfault⟩⟩
  · rw [if_neg hfault]
    exact .inl rfl

end Input

theorem elapsed_of_input {w : World} {s : InStream} (h : InputElapsed w.input s) :
    Elapsed w { w with input := s } :=
  ⟨rfl, le_rfl, .inl, h, fun sink => by cases sink <;> exact .refl _, le_rfl,
    fun h => absurd h (lt_irrefl _), le_rfl⟩

abbrev Broken {α : Type} (shows : α → Prop) (a : α) (_ w' : World) : Prop :=
  shows a ∧ w'.input.errorFlag = true

theorem saltCliFreadImpl_beside (id maxLen : ℕ) :
    Shadowed faultless Elapsed (Broken fun _ => True) (saltCliFreadImpl id maxLen) := by
  refine ⟨fun w => elapsed_atomic (fun _ => rfl)
    ((elapsed_of_input (fread_elapsed maxLen _)).trans
      (elapsed_of_exposed (exposed_heap _ (List.length_modify ..)))), fun w => ?_⟩
  rcases fread_faultless maxLen w.input with hgood | hflag
  · refine .inl ?_
    have hread : (faultless w).deliver.input.fread maxLen =
      ((w.input.fread maxLen).1, faultlessInput (w.input.fread maxLen).2) := hgood
    simp only [saltCliFreadImpl, atomic, step_value, step_final, hread]
    exact ⟨rfl, rfl⟩
  · exact .inr ⟨trivial, hflag⟩

theorem saltCliFgetcImpl_beside :
    Shadowed faultless Elapsed (Broken fun c => c = none) saltCliFgetcImpl := by
  refine ⟨fun w => elapsed_atomic (fun _ => rfl)
    (elapsed_of_input (fgetc_elapsed _)), fun w => ?_⟩
  rcases fgetc_faultless w.input with hgood | hbad
  · refine .inl ?_
    have hread : (faultless w).deliver.input.fgetc =
      (w.input.fgetc.1, faultlessInput w.input.fgetc.2) := hgood
    simp only [saltCliFgetcImpl, atomic, step_value, step_final, hread]
    exact ⟨rfl, rfl⟩
  · exact .inr hbad

theorem saltCliUngetcImpl_beside (c : UInt8) :
    Beside (fun ok rc => ok = false ∧ rc = .errIo) (saltCliUngetcImpl c) := by
  refine ⟨fun w => elapsed_atomic (fun _ => rfl)
    (elapsed_of_input (ungetc_elapsed c _)), fun w => ?_⟩
  rcases ungetc_faultless c w.input with hgood | ⟨hfail, hfailed⟩
  · refine .inl ?_
    have hread : (faultless w).deliver.input.ungetc c =
      ((w.input.ungetc c).1, faultlessInput (w.input.ungetc c).2) := hgood
    simp only [saltCliUngetcImpl, atomic, step_value, step_final, hread]
    exact ⟨rfl, rfl⟩
  · exact .inr ⟨.errIo, ⟨hfail, rfl⟩, .input hfailed⟩

theorem saltCliFerrorImpl_beside :
    Beside (fun failed rc => failed = true ∧ rc = .errIo) saltCliFerrorImpl := by
  refine ⟨.refl, fun w => ?_⟩
  cases hflag : w.input.errorFlag with
  | false => exact .inl ⟨hflag.symm, rfl⟩
  | true => exact .inr ⟨.errIo, ⟨hflag, rfl⟩, .input (.inl hflag)⟩

theorem ferror_beside (sink : Sink) :
    Beside (fun failed rc => failed = true ∧ rc = .errIo) (ferror sink) := by
  refine ⟨.refl, fun w => ?_⟩
  cases hflag : (w.sink sink).errorFlag with
  | false =>
    refine .inl ⟨?_, rfl⟩
    change ((faultless w).sink sink).errorFlag = (w.sink sink).errorFlag
    rw [hflag]
    cases sink <;> rfl
  | true => exact .inr ⟨.errIo, ⟨hflag, rfl⟩, .output sink (.inl hflag)⟩

theorem Broken.bind {α β : Type} {shows : α → Prop} {tells : β → SaltStatus → Prop} {m : Cli α}
    {f : α → Cli β} (hm : Shadowed faultless Elapsed (Broken shows) m) (hf : ∀ a, Beside tells (f a))
    (hleft : ∀ a w, shows a → w.input.errorFlag = true → Ends (f a) w fun b w' =>
      ∃ rc, tells b rc ∧ (rc = .errIo ∨ Blamed rc w w')) : Beside tells (m >>= f) :=
  beside_bind hm hf fun a _ s' hss ⟨hshows, hflag⟩ => by
    obtain ⟨rc, htells, rfl | hblamed⟩ := hleft a s' hshows hflag
    · exact ⟨_, htells, .inl (.input (hss.input.errorFlag hflag))⟩
    · exact ⟨rc, htells, .inr hblamed⟩

/-- A read that gives a status and no block. -/
def ReadStatus (r : ReadResult) (rc : SaltStatus) : Prop := r = (rc, none)

section Reading
variable (buffer maxLen : ℕ)

theorem cliSecureReleaseBuffer_plain (len : ℕ) : Plain (cliSecureReleaseBuffer buffer len) :=
  (sodiumMunlock_plain ..).bind fun _ =>
    .ite ((sodiumMemzero_plain ..).bind fun _ => saltCliFreeImpl_plain _) (saltCliFreeImpl_plain _)

theorem failRead_plain (message : Bytes) (rc : SaltStatus) :
    Plain (failRead buffer maxLen message rc) :=
  (saltCliSetError_plain ..).bind fun _ => (cliSecureReleaseBuffer_plain ..).bind fun _ => .ret _

theorem finishRead_plain (bytesRead : ℕ) : Plain (finishRead buffer bytesRead) :=
  (editBlock_plain ..).bind fun _ => .ret _

theorem probeRead_beside : Beside ReadStatus (probeRead buffer maxLen) := by
  refine Broken.bind saltCliFgetcImpl_beside (fun nextChar => ?_) ?_
  · cases nextChar with
    | none =>
      refine saltCliFerrorImpl_beside.bind
        (fun _ => .ite (failRead_plain ..).beside (finishRead_plain ..).beside) ?_
      rintro _ _ ⟨rfl, rfl⟩ _
      exact fun w => ⟨.errIo, rfl, .inl rfl⟩
    | some c =>
      refine (saltCliUngetcImpl_beside c).bind
        (fun _ => .ite (failRead_plain ..).beside (failRead_plain ..).beside) ?_
      rintro _ _ ⟨rfl, rfl⟩ _
      exact fun w => ⟨.errIo, rfl, .inl rfl⟩
  · rintro _ w rfl hflag
    refine Ends.bind_read hflag ?_
    exact ⟨.errIo, rfl, .inl rfl⟩

theorem fillBuffer_beside : Beside ReadStatus (fillBuffer buffer maxLen) := by
  refine (sodiumMlock_plain _).then fun _ => Broken.bind (saltCliFreadImpl_beside ..) (fun n => ?_) ?_
  · refine saltCliCheckInterrupted_beside.bind (fun _ => .ite
      (((cliSecureReleaseBuffer_plain ..).bind fun _ => .ret _).beside) ?_) ?_
    · refine saltCliFerrorImpl_beside.bind (fun _ => .ite (failRead_plain ..).beside
        (.ite (probeRead_beside buffer maxLen) (finishRead_plain ..).beside)) ?_
      rintro _ _ ⟨rfl, rfl⟩ _
      exact fun w => ⟨.errIo, rfl, .inl rfl⟩
    · rintro _ _ ⟨rfl, rfl⟩ hne
      exact .stopped hne fun w => ⟨.errSignal, rfl, .inl rfl⟩
  · intro n w _ hflag
    refine (saltCliCheckInterrupted_ends w).bind fun rc w₁ ⟨helapsed, hin, hrc⟩ => ?_
    rcases hrc with rfl | ⟨rfl, hseen⟩
    · rw [if_neg (not_not.2 rfl)]
      refine Ends.bind_read (a := true) (by rw [hin]; exact hflag) ?_
      exact ⟨.errIo, rfl, .inl rfl⟩
    · rw [if_pos (by decide)]
      have hrelease := (cliSecureReleaseBuffer_plain buffer (maxLen + 1)).elapsed w₁
      exact ⟨.errSignal, rfl, .inr (.signal (hseen.across (.refl w) helapsed.clock hrelease.clock))⟩

end Reading

end Salt.FaultShadows
