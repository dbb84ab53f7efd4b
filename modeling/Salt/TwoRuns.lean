import Salt.EndToEnd
import Salt.HandlerSpan

set_option autoImplicit false

/-!
# Two runs side by side

Two runs whose secrets may differ. Their blocks lie at different places of the
heap, their control flow is the same, and so are the signals, the faults and
the bytes of the error stream. What else is the same is a parameter.
-/
namespace Salt.TwoRuns
open ByteStrings BlockHeap TracedState Sealing StreamFacts Tracking Ownership HandlerSpan

/-- What the two runs have in common besides the sizes. -/
structure Known where
  /-- Every byte they work on. -/
  exact : Prop
  /-- The length and the faults of the input stream, if they may read from it at all. -/
  stdin : Prop
  /-- The bytes of the input stream. -/
  input : Prop
  /-- The interruption flag. -/
  flag : Prop

/-- What they have in common behind the reset of the flag. -/
def Known.polled (K : Known) : Known := { K with flag := True }

/-- The same size and, in exact runs, the same bytes. -/
structure Fits (exact : Prop) (a b : Bytes) : Prop where
  length : a.length = b.length
  bytes : exact → a = b

theorem Fits.refl (exact : Prop) (a : Bytes) : Fits exact a a := ⟨rfl, fun _ => rfl⟩

/-- Arguments of one length, also up to the first NUL. -/
structure SameArg (exact : Prop) (a b : Bytes) : Prop where
  fits : Fits exact a b
  length : (cstr a).length = (cstr b).length

def movedRef (k : ℕ) : TextRef → TextRef
  | .text s => .text s
  | .block id => .block (k + id)

def moved (k : ℕ) (s : CliState) : CliState := { s with
  keyOption := s.keyOption.map (movedRef k)
  stdinKey := s.stdinKey.map (k + ·)
  stdinPlaintext := s.stdinPlaintext.map (k + ·)
  argvPlaintextCopy := s.argvPlaintextCopy.map (k + ·)
  trimmedKeyInput := s.trimmedKeyInput.map (k + ·)
  message := s.message.map (k + ·)
  output := s.output.map (k + ·) }

/-- Environments with the same faults and signals. The library calls are compared where they are made. -/
structure SameAnswers (exact : Prop) (e e' : Env) : Prop where
  all : exact → e = e'
  width : e.width = e'.width
  version : e.version = e'.version
  signals : e.signals = e'.signals
  alloc : ∀ t, (e.alloc t).isSome = (e'.alloc t).isSome
  munlock : ∀ t, e.munlock t = 0 ↔ e'.munlock t = 0
  sigemptyset : e.sigemptyset = e'.sigemptyset
  sigaction : e.sigaction = e'.sigaction

structure SameInput (input : Prop) (s s' : InStream) : Prop where
  length : s.rest.length = s'.rest.length
  rest : input → s.rest = s'.rest
  errorFlag : s.errorFlag = s'.errorFlag
  calls : s.calls = s'.calls
  readFault : s.readFault = s'.readFault
  ungetFault : s.ungetFault = s'.ungetFault

structure SameOut (exact : Prop) (s s' : OutStream) : Prop where
  all : exact → s = s'
  script : s.script = s'.script
  ops : s.ops = s'.ops
  errorFlag : s.errorFlag = s'.errorFlag

/-- The worlds of the two runs at one point of the program; their heaps start at `k` and `k'`. -/
structure Alike (K : Known) (k k' : ℕ) (w w' : World) : Prop where
  env : SameAnswers K.exact w.env w'.env
  clock : w.clock = w'.clock
  state : ∃ s, w.state = moved k s ∧ w'.state = moved k' s
  size : ∃ n, w.heap.length = k + n ∧ w'.heap.length = k' + n
  bytes : ∀ j, Fits K.exact (bytesAt w.heap (k + j)) (bytesAt w'.heap (k' + j))
  positionals : List.Forall₂ (SameArg K.exact) w.positionals w'.positionals
  input : K.stdin → SameInput K.input w.input w'.input
  out : SameOut K.exact w.out w'.out
  err : w.err = w'.err
  interrupted : K.flag → w.interrupted = w'.interrupted
  disposition : w.disposition = w'.disposition
  saved : w.saved = w'.saved

abbrev Same {α : Type} (K : Known) (k k' : ℕ) (m m' : Cli α) : Prop := Paired (Alike K k k') Eq m m'

section Calls
variable {K : Known} {k k' : ℕ} {w w' : World} {α β : Type}

theorem Alike.unpolled (h : Alike K.polled k k' w w') : Alike K k k' w w' :=
  { h with
    interrupted := fun _ => h.interrupted trivial
    disposition := h.disposition
    saved := h.saved }

theorem Alike.deliver (h : Alike K k k' w w') : Alike K k k' w.deliver w'.deliver :=
  { h with
    interrupted := fun hflag => by
      have hint := congrFun h.disposition .sigint
      have hterm := congrFun h.disposition .sigterm
      change w.sigint = w'.sigint at hint
      change w.sigterm = w'.sigterm at hterm
      simp only [World.deliver, h.interrupted hflag, h.env.signals, h.clock, hint, hterm]
    disposition := h.disposition
    saved := h.saved }

theorem Alike.tick (h : Alike K k k' w w') : Alike K k k' w.tick w'.tick :=
  { h with
    clock := congrArg (· + 1) h.clock
    disposition := h.disposition
    saved := h.saved }

/-- A call into the system, from what it does behind the delivery of signals. -/
theorem atomic_jointly {f : World → α × World} {f' : World → β × World} {V : α → β → Prop}
    (hv : V (f w.deliver).1 (f' w'.deliver).1)
    (hw : Alike K k k' (f w.deliver).2 (f' w'.deliver).2) :
    Jointly (atomic f) (atomic f') w w' fun a b u u' => V a b ∧ Alike K k k' u u' :=
  ⟨hv, hw.tick⟩

theorem atomic_paired {f : World → α × World} {f' : World → β × World} {V : α → β → Prop}
    (hf : ∀ w w', Alike K k k' w w' → V (f w).1 (f' w').1 ∧ Alike K k k' (f w).2 (f' w').2) :
    Paired (Alike K k k') V (atomic f) (atomic f') := fun _ _ h =>
  atomic_jointly (hf _ _ h.deliver).1 (hf _ _ h.deliver).2

theorem Alike.withState (h : Alike K k k' w w') (s : CliState) :
    Alike K k k' { w with state := moved k s } { w' with state := moved k' s } :=
  { h with
    state := ⟨s, rfl, rfl⟩
    disposition := h.disposition
    saved := h.saved }

theorem modifyState_paired {f f' : CliState → CliState} {g : CliState → CliState}
    (hf : ∀ s, f (moved k s) = moved k (g s)) (hf' : ∀ s, f' (moved k' s) = moved k' (g s)) :
    Same K k k' (modifyState f) (modifyState f') := by
  intro w w' h
  obtain ⟨s, hs, hs'⟩ := h.state
  refine ⟨rfl, ?_⟩
  change Alike K k k' { w with state := f w.state } { w' with state := f' w'.state }
  rw [hs, hs', hf, hf']
  exact h.withState _

theorem getState_paired : Paired (Alike K k k') (fun s s' => ∃ t, s = moved k t ∧ s' = moved k' t)
    getState getState :=
  fun _ _ h => ⟨h.state, h⟩

theorem read_paired {f : World → α} {f' : World → β} {V : α → β → Prop}
    (hf : ∀ w w', Alike K k k' w w' → V (f w) (f' w')) :
    Paired (Alike K k k') V (Traced.read f) (Traced.read f') :=
  fun w w' h => ⟨hf w w' h, h⟩

theorem ghost_paired {g g' : World → World}
    (hg : ∀ w w', Alike K k k' w w' → Alike K k k' (g w) (g' w')) :
    Same K k k' (Traced.update g) (Traced.update g') :=
  fun w w' h => ⟨rfl, hg w w' h⟩

end Calls

section Memory
variable {K : Known} {k k' : ℕ} {w w' : World}

theorem Fits.put {exact : Prop} {a b data data' : Bytes} (h : Fits exact a b)
    (hdata : exact → data = data') : Fits exact (put a data) (put b data') where
  length := by rw [put_length, put_length, h.length]
  bytes he := by rw [h.bytes he, hdata he]

theorem Alike.modifyBlocks (h : Alike K k k' w w') (j : ℕ) (f g : Block → Block)
    (hf : ∀ b b', b.bytes = bytesAt w.heap (k + j) → b'.bytes = bytesAt w'.heap (k' + j) →
      Fits K.exact (f b).bytes (g b').bytes) :
    Alike K k k' { w with heap := w.heap.modify (k + j) f }
      { w' with heap := w'.heap.modify (k' + j) g } := by
  obtain ⟨n, hn, hn'⟩ := h.size
  refine { h with
    size := ⟨n, by rw [List.length_modify, hn], by rw [List.length_modify, hn']⟩
    bytes := fun i => ?_
    disposition := h.disposition
    saved := h.saved }
  dsimp only
  rw [bytesAt_modify, bytesAt_modify]
  by_cases hij : j = i
  · subst hij
    rw [if_pos rfl, if_pos rfl]
    rcases Nat.lt_or_ge j n with hlt | hge
    · rw [List.getElem?_eq_getElem (by omega), List.getElem?_eq_getElem (by omega)]
      exact hf _ _ (by simp [bytesAt, List.getElem?_eq_getElem (show k + j < w.heap.length by omega)])
        (by simp [bytesAt, List.getElem?_eq_getElem (show k' + j < w'.heap.length by omega)])
    · rw [List.getElem?_eq_none (by omega), List.getElem?_eq_none (by omega)]
      exact .refl _ _
  · rw [if_neg (by omega), if_neg (by omega)]
    exact h.bytes i

theorem Fits.wipe {exact : Prop} {b b' : Block} (h : Fits exact b.bytes b'.bytes) (len : ℕ) :
    Fits exact (b.wipe len).bytes (b'.wipe len).bytes where
  length := by simp [Block.wipe, h.length]
  bytes he := by simp only [Block.wipe, h.bytes he]

theorem Alike.wipe (h : Alike K k k' w w') (j len : ℕ) :
    Alike K k k' { w with heap := w.heap.modify (k + j) (Block.wipe len) }
      { w' with heap := w'.heap.modify (k' + j) (Block.wipe len) } :=
  h.modifyBlocks j _ _ fun b b' hb hb' => by
    have hfits := h.bytes j
    rw [← hb, ← hb'] at hfits
    exact hfits.wipe len

theorem saltCliAllocImpl_paired (size : ℕ) : Paired (Alike K k k')
    (fun r r' => ∃ o : Option ℕ, r = o.map (k + ·) ∧ r' = o.map (k' + ·))
    (saltCliAllocImpl size) (saltCliAllocImpl size) := by
  refine atomic_paired fun w w' h => ?_
  have hsome := h.env.alloc w.clock
  rw [← h.clock]
  obtain ⟨n, hn, hn'⟩ := h.size
  rcases ha : w.env.alloc w.clock with _ | content <;>
    rcases ha' : w'.env.alloc w.clock with _ | content'
  · exact ⟨⟨none, rfl, rfl⟩, { h with disposition := h.disposition, saved := h.saved }⟩
  · rw [ha, ha'] at hsome
    exact Bool.noConfusion hsome
  · rw [ha, ha'] at hsome
    exact Bool.noConfusion hsome
  · refine ⟨⟨some n, congrArg some hn, congrArg some hn'⟩, { h with
      size := ⟨n + 1, ?_, ?_⟩
      bytes := fun i => ?_
      disposition := h.disposition
      saved := h.saved }⟩
    · simp [hn, Nat.add_assoc]
    · simp [hn', Nat.add_assoc]
    · dsimp only [record]
      rcases Nat.lt_trichotomy i n with hlt | rfl | hgt
      · rw [bytesAt_append_of_lt _ (by omega), bytesAt_append_of_lt _ (by omega)]
        exact h.bytes i
      · rw [← hn, ← hn', bytesAt_append, bytesAt_append]
        refine ⟨by rw [fresh_length, fresh_length], fun he => ?_⟩
        rw [← h.env.all he, ha] at ha'
        rw [Option.some.inj ha']
      · rw [bytesAt, bytesAt, List.getElem?_eq_none (by simp; omega),
          List.getElem?_eq_none (by simp; omega)]
        exact .refl _ _

theorem sodiumMlock_paired (len : ℕ) : Same K k k' (sodiumMlock len) (sodiumMlock len) :=
  atomic_paired fun _ _ h => ⟨rfl, { h with disposition := h.disposition, saved := h.saved }⟩

theorem sodiumMunlock_paired (j len : ℕ) : Paired (Alike K k k') (fun r r' => r = 0 ↔ r' = 0)
    (sodiumMunlock (k + j) len) (sodiumMunlock (k' + j) len) :=
  atomic_paired fun w _ h => ⟨by rw [h.env.munlock, h.clock], h.wipe j len⟩

theorem sodiumMemzero_paired (j len : ℕ) :
    Same K k k' (sodiumMemzero (k + j) len) (sodiumMemzero (k' + j) len) :=
  atomic_paired fun _ _ h => ⟨rfl, h.wipe j len⟩

theorem saltCliFreeImpl_paired (j : ℕ) :
    Same K k k' (saltCliFreeImpl (k + j)) (saltCliFreeImpl (k' + j)) :=
  atomic_paired fun w w' h => ⟨rfl, h.modifyBlocks j _ _ fun b b' hb hb' => by
    change Fits K.exact b.bytes b'.bytes
    rw [hb, hb']
    exact h.bytes j⟩

theorem editBlock_paired (j : ℕ) {f f' : Bytes → Option Bytes}
    (hf : ∀ b c, f b = some c → c.length = b.length)
    (hf' : ∀ b c, f' b = some c → c.length = b.length) (hexact : K.exact → f = f') :
    Same K k k' (editBlock (k + j) f) (editBlock (k' + j) f') := by
  have hstep (i : ℕ) (f : Bytes → Option Bytes) (w : World) : ∃ undefined,
      (editBlock i f w).final = { w with
        heap := w.heap.modify i (Block.edit fun b => (f (blockBytes w i)).getD b)
        undefined := undefined } := by
    simp only [editBlock, update_final]
    cases f (blockBytes w i) with
    | none =>
      have hid : Block.edit (fun b => b) = id := rfl
      exact ⟨true, by simp [hid]⟩
    | some bytes => exact ⟨_, rfl⟩
  have hsize {f : Bytes → Option Bytes} (hf : ∀ b c, f b = some c → c.length = b.length)
      (b : Bytes) : ((f b).getD b).length = b.length := by
    cases hb : f b with
    | none => rfl
    | some c => exact hf b c hb
  intro w w' h
  refine ⟨rfl, ?_⟩
  obtain ⟨u, hu⟩ := hstep (k + j) f w
  obtain ⟨u', hu'⟩ := hstep (k' + j) f' w'
  rw [hu, hu']
  have hfits := h.bytes j
  have hm := h.modifyBlocks j (Block.edit fun b => (f (blockBytes w (k + j))).getD b)
    (Block.edit fun b => (f' (blockBytes w' (k' + j))).getD b) fun b b' hb hb' => ?_
  · exact { hm with disposition := hm.disposition, saved := hm.saved }
  · simp only [Block.edit, hb, hb']
    change Fits K.exact ((f (bytesAt w.heap (k + j))).getD (bytesAt w.heap (k + j)))
      ((f' (bytesAt w'.heap (k' + j))).getD (bytesAt w'.heap (k' + j)))
    refine ⟨?_, fun he => ?_⟩
    · rw [hsize hf, hsize hf', hfits.length]
    · rw [hfits.bytes he, hexact he]

end Memory

section Streams
variable {K : Known} {k k' : ℕ} {w w' : World}

theorem SameOut.write {exact : Prop} {s s' : OutStream} (h : SameOut exact s s') {data data' : Bytes}
    (hd : exact → data = data') :
    (s.write data).1 = (s'.write data').1 ∧
      SameOut exact (s.write data).2 (s'.write data').2 := by
  have hscript := congrFun h.script s.ops
  have hcore : (s.write data).1 = (s'.write data').1 ∧
      (s.write data).2.ops = (s'.write data').2.ops ∧
      (s.write data).2.errorFlag = (s'.write data').2.errorFlag := by
    unfold OutStream.write
    rw [← h.ops, ← hscript]
    cases s.script s.ops with
    | ok n => exact ⟨rfl, rfl, h.errorFlag⟩
    | fail kept n => exact ⟨rfl, rfl, rfl⟩
  refine ⟨hcore.1, fun he => by rw [h.all he, hd he], ?_, hcore.2.1, hcore.2.2⟩
  rw [write_script, write_script, h.script]

theorem SameOut.flush {exact : Prop} {s s' : OutStream} (h : SameOut exact s s') :
    s.flush.1 = s'.flush.1 ∧ SameOut exact s.flush.2 s'.flush.2 := by
  have hscript := congrFun h.script s.ops
  have hcore : s.flush.1 = s'.flush.1 ∧ s.flush.2.ops = s'.flush.2.ops ∧
      s.flush.2.errorFlag = s'.flush.2.errorFlag := by
    unfold OutStream.flush
    rw [← h.ops, ← hscript]
    cases s.script s.ops with
    | ok n => exact ⟨rfl, rfl, h.errorFlag⟩
    | fail kept n => exact ⟨rfl, rfl, rfl⟩
  refine ⟨hcore.1, fun he => by rw [h.all he], ?_, hcore.2.1, hcore.2.2⟩
  rw [flush_script, flush_script, h.script]

theorem vfprintf_out_paired {data data' : Bytes} (hd : K.exact → data = data') :
    Same K k k' (vfprintf .out data) (vfprintf .out data') :=
  atomic_paired fun _ _ h =>
    ⟨(h.out.write hd).1, { h with
      out := (h.out.write hd).2, disposition := h.disposition, saved := h.saved }⟩

theorem vfprintf_paired (sink : Sink) (data : Bytes) :
    Same K k k' (vfprintf sink data) (vfprintf sink data) := by
  cases sink with
  | out => exact vfprintf_out_paired fun _ => rfl
  | err =>
    refine atomic_paired fun w w' h => ?_
    have herr : w.sink .err = w'.sink .err := h.err
    rw [herr]
    exact ⟨rfl, { h with err := rfl, disposition := h.disposition, saved := h.saved }⟩

theorem fflush_paired (sink : Sink) : Same K k k' (fflush sink) (fflush sink) := by
  cases sink with
  | out =>
    exact atomic_paired fun _ _ h => ⟨h.out.flush.1, { h with
      out := h.out.flush.2, disposition := h.disposition, saved := h.saved }⟩
  | err =>
    refine atomic_paired fun w w' h => ?_
    have herr : w.sink .err = w'.sink .err := h.err
    rw [herr]
    exact ⟨rfl, { h with err := rfl, disposition := h.disposition, saved := h.saved }⟩

theorem ferror_paired (sink : Sink) : Same K k k' (ferror sink) (ferror sink) :=
  read_paired fun _ _ h => by
    cases sink
    · exact h.out.errorFlag
    · exact congrArg OutStream.errorFlag h.err

theorem saltCliSetError_paired (useError : Bool) (message : Bytes) (rc : SaltStatus) :
    Same K k k' (saltCliSetError useError message rc) (saltCliSetError useError message rc) :=
  (modifyState_paired (g := fun s => if useError then { s with error := vsnprintf s.error message }
    else s) (fun _ => by cases useError <;> rfl) fun _ => by cases useError <;> rfl).bind_eq
    fun _ => .ret rfl

theorem saltCliFlushStream_paired (stream : Sink) (useError : Bool) (message : Bytes) :
    Same K k k' (saltCliFlushStream stream useError message)
      (saltCliFlushStream stream useError message) :=
  (fflush_paired stream).bind_eq fun _ => .ite .rfl (saltCliSetError_paired _ _ _) (.ret rfl)

theorem saltCliWriteStream_paired (stream : Sink) (useError : Bool) (message text : Bytes) :
    Same K k k' (saltCliWriteStream stream useError message text)
      (saltCliWriteStream stream useError message text) :=
  (vfprintf_paired stream text).bind_eq fun _ =>
    .ite .rfl (saltCliSetError_paired _ _ _) (saltCliFlushStream_paired _ _ _)

theorem saltCliReportStreamStatus_paired (stream : Sink) (useError : Bool) (rc : SaltStatus)
    (text : Bytes) : Same K k k' (saltCliReportStreamStatus stream useError rc text)
      (saltCliReportStreamStatus stream useError rc text) :=
  (vfprintf_paired stream text).bind_eq fun _ => .ite .rfl (saltCliSetError_paired _ _ _)
    ((saltCliFlushStream_paired _ _ _).bind_eq fun _ => .ite .rfl (.ret rfl) (.ret rfl))

theorem saltCliReportStateError_paired (rc : SaltStatus) :
    Same K k k' (saltCliReportStateError rc) (saltCliReportStateError rc) := by
  refine getState_paired.bind ?_
  rintro _ _ ⟨s, rfl, rfl⟩
  exact saltCliReportStreamStatus_paired .err false rc (stateErrorText s)

theorem writeStateError_paired : Same K k k' writeStateError writeStateError := by
  refine getState_paired.bind ?_
  rintro _ _ ⟨s, rfl, rfl⟩
  exact saltCliWriteStream_paired .err false _ (stateErrorText s)

theorem reportOrIo_paired (rc : SaltStatus) : Same K k k' (reportOrIo rc) (reportOrIo rc) :=
  writeStateError_paired.bind_eq fun _ => .ite .rfl (.ret rfl) (.ret rfl)

theorem saltCliCheckInterrupted_paired (hflag : K.flag) :
    Same K k k' saltCliCheckInterrupted saltCliCheckInterrupted := by
  have hload : Same K k k' loadInterrupted loadInterrupted := atomic_paired fun _ _ h =>
    ⟨h.interrupted hflag, { h with disposition := h.disposition, saved := h.saved }⟩
  exact hload.bind_eq fun _ => .ite .rfl (saltCliSetError_paired _ _ _) (.ret rfl)

theorem reportIfInterrupted_paired (hflag : K.flag) :
    Same K k k' reportIfInterrupted reportIfInterrupted :=
  (saltCliCheckInterrupted_paired hflag).bind_eq fun _ =>
    .ite .rfl (saltCliReportStateError_paired _) (.ret rfl)

end Streams

section Signals
variable {K : Known} {k k' : ℕ} {w w' : World}

theorem Alike.setDisposition (h : Alike K k k' w w') (signal : Signal) (d : Disposition) :
    Alike K k k' (w.setDisposition signal d) (w'.setDisposition signal d) := by
  have hd : (w.setDisposition signal d).disposition = (w'.setDisposition signal d).disposition := by
    rw [disposition_setDisposition, disposition_setDisposition, h.disposition]
  have hs : (w.setDisposition signal d).saved = (w'.setDisposition signal d).saved := by
    rw [saved_setDisposition, saved_setDisposition, h.saved]
  cases signal <;> exact { h with disposition := hd, saved := hs }

theorem Alike.setSaved (h : Alike K k k' w w') (signal : Signal) (d : Option Disposition) :
    Alike K k k' (w.setSaved signal d) (w'.setSaved signal d) := by
  have hd : (w.setSaved signal d).disposition = (w'.setSaved signal d).disposition := by
    rw [disposition_setSaved, disposition_setSaved, h.disposition]
  have hs : (w.setSaved signal d).saved = (w'.setSaved signal d).saved := by
    rw [saved_setSaved, saved_setSaved, h.saved]
  cases signal <;> exact { h with disposition := hd, saved := hs }

theorem sigaction_paired (signal : Signal) (d : Disposition) :
    Same K k k' (sigaction signal d) (sigaction signal d) := by
  refine atomic_paired fun w w' h => ⟨?_, ?_⟩
  · exact Prod.ext (by dsimp only; rw [h.env.sigaction, h.clock]) (congrFun h.disposition signal)
  · dsimp only
    rw [h.env.sigaction, h.clock]
    split_ifs
    · exact h.setDisposition signal d
    · exact h

theorem setSaved_paired (signal : Signal) (d : Option Disposition) :
    Same K k k' (setSaved signal d) (setSaved signal d) :=
  ghost_paired fun _ _ h => h.setSaved signal d

theorem saltCliEnsureSignalHandlers_paired :
    Same K k k' saltCliEnsureSignalHandlers saltCliEnsureSignalHandlers := by
  have hempty : Same K k k' sigemptyset sigemptyset := atomic_paired fun _ _ h =>
    ⟨by rw [h.env.sigemptyset, h.clock], h⟩
  have hmark : Same K k k' markInstalled markInstalled := ghost_paired fun _ _ h =>
    { h with disposition := h.disposition, saved := h.saved }
  refine hempty.bind_eq fun _ => .ite .rfl (.ret rfl) ?_
  refine (sigaction_paired _ _).bind_eq fun _ => .ite .rfl (.ret rfl) ?_
  refine (setSaved_paired _ _).bind_eq fun _ => ?_
  refine (sigaction_paired _ _).bind_eq fun _ => .ite .rfl ?_ ?_
  · exact (sigaction_paired _ _).bind_eq fun _ => (setSaved_paired _ _).bind_eq fun _ => .ret rfl
  · exact (setSaved_paired _ _).bind_eq fun _ => hmark.bind_eq fun _ => .ret rfl

theorem restoreSignalHandler_paired (signal : Signal) :
    Same K k k' (restoreSignalHandler signal) (restoreSignalHandler signal) := by
  have hread : Same K k k' (Traced.read fun w => w.saved signal)
      (Traced.read fun w => w.saved signal) := read_paired fun _ _ h => congrFun h.saved signal
  refine hread.bind_eq fun saved => ?_
  cases saved with
  | none => exact .ret rfl
  | some d => exact (sigaction_paired signal d).bind_eq fun _ => setSaved_paired signal none

theorem installStage_paired (manageSignals : Bool) :
    Same K k k' (installStage manageSignals) (installStage manageSignals) :=
  .ite .rfl (saltCliEnsureSignalHandlers_paired.bind_eq fun _ =>
    .ite .rfl ((saltCliSetError_paired _ _ _).bind_eq fun _ => reportOrIo_paired _) (.ret rfl))
    (.ret rfl)

theorem saltCliResetInterrupted_jointly (h : Alike K k k' w w') :
    Jointly saltCliResetInterrupted saltCliResetInterrupted w w' fun _ _ u u' =>
      Alike K.polled k k' u u' :=
  { h.tick with
    input := fun hs => h.input hs
    interrupted := fun _ => rfl
    disposition := h.disposition
    saved := h.saved }

end Signals

end Salt.TwoRuns
