import Salt.Framing

set_option autoImplicit false

/-!
# Symbolic runs

The view of a world leaves out the clock, the signals and the records of the
calls. `Tracks w₀ v w` says that a run from `w₀` has come to a world with the
view `v`. Every call moves the view in one known way, whatever else happens.
-/
namespace Salt.Tracking
open ByteStrings BlockHeap TracedState Sealing StreamFacts Framing

structure View where
  state : CliState
  heap : Heap
  positionals : List Bytes
  input : InStream
  err : OutStream
  undefined : Bool

def view (w : World) : View :=
  ⟨w.state, w.heap, w.positionals, w.input, w.err, w.undefined⟩

def bytesAt (heap : Heap) (id : ℕ) : Bytes := heap[id]?.elim [] Block.bytes

theorem bytesAt_beyond (heap : Heap) (j : ℕ) : bytesAt heap (heap.length + j) = [] := by
  rw [bytesAt, List.getElem?_eq_none (Nat.le_add_right _ _)]
  rfl

def scrubbed (i len : ℕ) (positionals : List Bytes) : List Bytes :=
  positionals.modify i fun s => List.replicate (min len s.length) 0 ++ s.drop len

structure Tracks (w₀ : World) (v : View) (w : World) : Prop where
  view : Tracking.view w = v
  env : w.env = w₀.env
  clock : w₀.clock ≤ w.clock
  faultFree : FaultFree w₀ → FaultFree w

section Tracks
variable {w₀ w : World} {v : View} {α β : Type}

theorem Tracks.refl (w : World) : Tracks w (Tracking.view w) w := ⟨rfl, rfl, le_refl _, id⟩

theorem Tracks.state (h : Tracks w₀ v w) : w.state = v.state := congrArg View.state h.view
theorem Tracks.heap (h : Tracks w₀ v w) : w.heap = v.heap := congrArg View.heap h.view
theorem Tracks.positionals (h : Tracks w₀ v w) : w.positionals = v.positionals :=
  congrArg View.positionals h.view
theorem Tracks.input (h : Tracks w₀ v w) : w.input = v.input := congrArg View.input h.view
theorem Tracks.err (h : Tracks w₀ v w) : w.err = v.err := congrArg View.err h.view
theorem Tracks.undefined (h : Tracks w₀ v w) : w.undefined = v.undefined :=
  congrArg View.undefined h.view

theorem Tracks.blockBytes (h : Tracks w₀ v w) (id : ℕ) :
    Salt.blockBytes w id = bytesAt v.heap id := by
  rw [← h.heap]
  rfl

theorem Tracks.advance (h : Tracks w₀ v w) {w' : World} (ha : Advances w w') {v' : View}
    (hv : Tracking.view w' = v') : Tracks w₀ v' w' :=
  ⟨hv, ha.env.trans h.env, h.clock.trans ha.clock, fun h₀ => ha.faultFree (h.faultFree h₀)⟩

theorem Tracks.after {m : Cli α} (h : Tracks w₀ v w) (hm : Internal m) {v' : View}
    (hv : Tracking.view (m w).final = v') : Tracks w₀ v' (m w).final :=
  h.advance (hm.advances w) hv

/-- A call that only moves the view, by a function of the view. -/
theorem Tracks.moved {m : Cli α} (h : Tracks w₀ v w) (hm : Internal m) {g : View → View}
    (hg : ∀ w, Tracking.view (m w).final = g (Tracking.view w)) :
    Ends m w fun _ w' => Tracks w₀ (g v) w' :=
  h.after hm (by rw [hg, h.view])

theorem getState_tracks (h : Tracks w₀ v w) :
    Ends getState w fun s w' => s = v.state ∧ Tracks w₀ v w' :=
  ⟨h.state, h⟩

theorem modifyState_tracks (h : Tracks w₀ v w) (f : CliState → CliState) :
    Ends (modifyState f) w fun _ w' => Tracks w₀ { v with state := f v.state } w' :=
  h.moved (g := fun v => { v with state := f v.state }) (modifyState_internal f) fun _ => rfl

theorem sodiumMlock_tracks (h : Tracks w₀ v w) (len : ℕ) :
    Ends (sodiumMlock len) w fun _ w' => Tracks w₀ v w' :=
  h.moved (g := fun v => v) (sodiumMlock_internal len) fun _ => rfl

theorem sodiumMunlock_tracks (h : Tracks w₀ v w) (id len : ℕ) :
    Ends (sodiumMunlock id len) w fun _ w' =>
      Tracks w₀ { v with heap := v.heap.modify id (Block.wipe len) } w' :=
  h.moved (g := fun v => { v with heap := v.heap.modify id (Block.wipe len) })
    (sodiumMunlock_internal id len) fun _ => rfl

theorem sodiumMemzero_tracks (h : Tracks w₀ v w) (id len : ℕ) :
    Ends (sodiumMemzero id len) w fun _ w' =>
      Tracks w₀ { v with heap := v.heap.modify id (Block.wipe len) } w' :=
  h.moved (g := fun v => { v with heap := v.heap.modify id (Block.wipe len) })
    (sodiumMemzero_internal id len) fun _ => rfl

theorem saltCliFreeImpl_tracks (h : Tracks w₀ v w) (id : ℕ) :
    Ends (saltCliFreeImpl id) w fun _ w' =>
      Tracks w₀ { v with heap := v.heap.modify id Block.free } w' :=
  h.moved (g := fun v => { v with heap := v.heap.modify id Block.free })
    (saltCliFreeImpl_internal id) fun _ => rfl

theorem Tracks.no_fault (h : Tracks w₀ v w) (halloc : w.env.alloc w.clock = none) :
    ¬ FaultFree w₀ := fun h₀ => (h.faultFree h₀).alloc w.clock (le_refl _) halloc

theorem saltCliAllocImpl_tracks (h : Tracks w₀ v w) (size : ℕ) :
    Ends (saltCliAllocImpl size) w fun r w' =>
      (r = none ∧ w.env.alloc w.clock = none ∧ Tracks w₀ v w') ∨
      ∃ content, r = some v.heap.length ∧ w.env.alloc w.clock = some content ∧
        Tracks w₀ { v with heap := v.heap ++ [⟨size, fresh content size, []⟩] } w' := by
  have hm := saltCliAllocImpl_internal size
  cases halloc : w.env.alloc w.clock with
  | none =>
    have hrun : (saltCliAllocImpl size w).value = none ∧
        view (saltCliAllocImpl size w).final = view w := by
      simp [saltCliAllocImpl, atomic, World.deliver, halloc, view, record, World.tick]
    exact .inl ⟨hrun.1, rfl, h.after hm (hrun.2.trans h.view)⟩
  | some content =>
    have hrun : (saltCliAllocImpl size w).value = some w.heap.length ∧
        view (saltCliAllocImpl size w).final =
          { view w with heap := w.heap ++ [⟨size, fresh content size, []⟩] } := by
      simp [saltCliAllocImpl, atomic, World.deliver, halloc, view, record, World.tick]
    refine .inr ⟨content, by rw [hrun.1, h.heap], rfl, h.after hm ?_⟩
    rw [hrun.2, h.view, h.heap]

theorem editBlock_tracks (h : Tracks w₀ v w) {id : ℕ} {f : Bytes → Option Bytes} {bytes : Bytes}
    (hf : f (bytesAt v.heap id) = some bytes) :
    Ends (editBlock id f) w fun _ w' =>
      Tracks w₀ { v with heap := v.heap.modify id (Block.edit fun _ => bytes) } w' := by
  refine h.after (editBlock_internal id f) ?_
  rw [← h.blockBytes] at hf
  simp only [editBlock, update_final, hf]
  rw [← h.view]
  rfl

theorem readByte_tracks (h : Tracks w₀ v w) {id i : ℕ} {c : UInt8}
    (hc : (bytesAt v.heap id)[i]? = some c) :
    Ends (readByte id i) w fun a w' => a = c ∧ Tracks w₀ v w' := by
  rw [← h.blockBytes] at hc
  have hrun : (readByte id i w).value = c ∧ (readByte id i w).final = w := by
    simp [readByte, hc]
  exact ⟨hrun.1, by rw [hrun.2]; exact h⟩

theorem scrubPositional_tracks (h : Tracks w₀ v w) (i len : ℕ) :
    Ends (scrubPositional i len) w fun _ w' =>
      Tracks w₀ { v with positionals := scrubbed i len v.positionals } w' :=
  h.moved (g := fun v => { v with positionals := scrubbed i len v.positionals })
    (scrubPositional_internal i len) fun _ => rfl

theorem saltCliFreadImpl_tracks (h : Tracks w₀ v w) (id maxLen : ℕ) :
    Ends (saltCliFreadImpl id maxLen) w fun a w' =>
      a = (v.input.fread maxLen).1.length ∧
      Tracks w₀ { v with
        input := (v.input.fread maxLen).2,
        heap := v.heap.modify id
          (Block.edit fun _ => put (bytesAt v.heap id) (v.input.fread maxLen).1) } w' := by
  refine ⟨by rw [← h.input]; rfl, h.after (saltCliFreadImpl_internal id maxLen) ?_⟩
  rw [← h.view]
  rfl

theorem saltCliFerrorImpl_tracks (h : Tracks w₀ v w) :
    Ends saltCliFerrorImpl w fun a w' => a = v.input.errorFlag ∧ Tracks w₀ v w' :=
  ⟨by rw [← h.input]; rfl, h⟩

theorem saltCliFgetcImpl_tracks (h : Tracks w₀ v w) :
    Ends saltCliFgetcImpl w fun a w' =>
      a = v.input.fgetc.1 ∧ Tracks w₀ { v with input := v.input.fgetc.2 } w' := by
  refine ⟨by rw [← h.input]; rfl, h.after saltCliFgetcImpl_internal ?_⟩
  rw [← h.view]
  rfl

theorem saltCliUngetcImpl_tracks (h : Tracks w₀ v w) (c : UInt8) :
    Ends (saltCliUngetcImpl c) w fun a w' =>
      a = (v.input.ungetc c).1 ∧ Tracks w₀ { v with input := (v.input.ungetc c).2 } w' := by
  refine ⟨by rw [← h.input]; rfl, h.after (saltCliUngetcImpl_internal c) ?_⟩
  rw [← h.view]
  rfl

def withError (s : CliState) (useError : Bool) (message : Bytes) : CliState :=
  { s with error := if useError then vsnprintf s.error message else s.error }

theorem withError_error_length (s : CliState) (useError : Bool) (message : Bytes) :
    (withError s useError message).error.length = s.error.length := by
  cases useError
  · rfl
  · exact vsnprintf_length _ _

theorem saltCliSetError_tracks (h : Tracks w₀ v w) (useError : Bool) (message : Bytes)
    (rc : SaltStatus) :
    Ends (saltCliSetError useError message rc) w fun a w' =>
      a = rc ∧ Tracks w₀ { v with state := withError v.state useError message } w' := by
  have hmod := modifyState_tracks h fun s =>
    if useError then { s with error := vsnprintf s.error message } else s
  refine ⟨rfl, ?_⟩
  cases useError <;> exact hmod

theorem loadInterrupted_tracks (h : Tracks w₀ v w) :
    Ends loadInterrupted w fun a w' => (FaultFree w₀ → a = false) ∧ Tracks w₀ v w' :=
  ⟨fun h₀ => (faultFree_deliver (h.faultFree h₀)).interrupted,
    h.moved (g := fun v => v) loadInterrupted_internal fun _ => rfl⟩

theorem saltCliCheckInterrupted_tracks (h : Tracks w₀ v w) :
    Ends saltCliCheckInterrupted w fun rc w' =>
      (rc = .ok ∧ Tracks w₀ v w') ∨
      (rc = .errSignal ∧ ¬ FaultFree w₀ ∧
        Tracks w₀ { v with state := withError v.state true (ascii "operation interrupted") } w') := by
  refine (loadInterrupted_tracks h).bind fun interrupted w₁ ⟨hfree, h₁⟩ => .ite (fun hi => ?_) fun hi => ?_
  · refine (saltCliSetError_tracks h₁ _ _ _).mono fun rc w₂ ⟨hrc, h₂⟩ => .inr ⟨hrc, fun h₀ => ?_, h₂⟩
    rw [hfree h₀] at hi
    exact Bool.noConfusion hi
  · exact .ret (.inl ⟨rfl, h₁⟩)

end Tracks
end Salt.Tracking
