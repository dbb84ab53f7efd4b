import Salt.ArgumentsCorrect
import Salt.Expenses
import Salt.OutputSize
import Salt.ReportingCorrect

set_option autoImplicit false

/-!
# What a run holds and what it takes

In every state of a run the blocks that are not freed fit into one budget, and
so do the bytes taken from the input stream: the limits of the key, of the
plaintext and of the ciphertext bound them, whatever else happens. `Light`
programs keep the heap from growing and take no input.
-/
namespace Salt.Footprint
open ByteStrings BlockHeap TracedState Expenses Sealing KeyParsing StreamFacts ReportingCorrect
  ArgumentsCorrect OutputSize

/-- Bytes held on the heap, and bytes taken from the input stream. -/
def expenses : Meter (ℕ × ℕ) World :=
  (Meter.rise fun w => footprint w.heap).both (Meter.fall fun w => w.input.rest.length)

/-- The fields of the state that decide what is read, and how large the output is. -/
def choices (s : CliState) : (ℕ × Bool × Bool) × Bool × Bool :=
  ((s.messageLen, s.keyFromStdin, s.plaintextFromStdin), s.showHelp, s.showVersion)

structure Lighter (s t : World) : Prop where
  heap : footprint t.heap ≤ footprint s.heap
  input : s.input.rest.length ≤ t.input.rest.length
  choices : choices t.state = choices s.state

theorem Lighter.refl (w : World) : Lighter w w := ⟨le_rfl, le_rfl, rfl⟩

theorem Lighter.trans {r s t : World} (h : Lighter r s) (h' : Lighter s t) : Lighter r t where
  heap := h'.heap.trans h.heap
  input := h.input.trans h'.input
  choices := h'.choices.trans h.choices

structure Light {α : Type} (m : Cli α) : Prop where
  through : Through Lighter m

section Rules
variable {α β : Type} {m n : Cli α} {f : α → Cli β}

theorem Light.ret (a : α) : Light (pure a : Cli α) := ⟨.ret Lighter.refl a⟩

theorem Light.read (f : World → α) : Light (Traced.read f) := ⟨.read Lighter.refl f⟩

theorem Light.step {f : World → α × World} (h : ∀ w, Lighter w (f w).2) : Light (Traced.step f) :=
  ⟨.step h⟩

theorem Light.bind (hm : Light m) (hf : ∀ a, Light (f a)) : Light (m >>= f) :=
  ⟨.bind (fun _ _ _ h h' => h.trans h') hm.through fun a => (hf a).through⟩

theorem Light.ite {c : Prop} [Decidable c] (hm : Light m) (hn : Light n) :
    Light (if c then m else n) := by
  split_ifs <;> assumption

theorem Light.atomic {f : World → α × World} (h : ∀ w, Lighter w (f w).2) :
    Light (Salt.atomic f) :=
  .step fun w =>
    have hw := h w.deliver
    ⟨hw.heap, hw.input, hw.choices⟩

theorem Light.aside {f : World → α × World}
    (h : ∀ w, ((f w).2.heap, (f w).2.input, (f w).2.state) = (w.heap, w.input, w.state)) :
    Light (Salt.atomic f) :=
  .atomic fun w => by
    obtain ⟨hheap, hinput, hstate⟩ := Prod.mk.inj (h w) |>.imp id Prod.mk.inj
    exact ⟨hheap ▸ le_rfl, hinput ▸ le_rfl, congrArg choices hstate⟩

theorem Light.spends (hm : Light m) : expenses.Spends (0, 0) m :=
  Meter.spends_of_through hm.through fun _ _ h => ⟨h.heap, h.input⟩

theorem Light.spends_any {a : ℕ × ℕ} (hm : Light m) : expenses.Spends a m :=
  hm.spends.mono ⟨Nat.zero_le _, Nat.zero_le _⟩

end Rules

theorem getState_light : Light getState := .read _

theorem modifyState_light (f : CliState → CliState)
    (h : ∀ s, choices (f s) = choices s := by exact fun _ => rfl) : Light (modifyState f) :=
  .step fun w => ⟨le_rfl, le_rfl, h w.state⟩

theorem undefinedBehaviour_light : Light undefinedBehaviour :=
  .step fun _ => ⟨le_rfl, le_rfl, rfl⟩

theorem modifyHeap_lighter {f : Block → Block} (hf : ∀ b, (f b).footprint ≤ b.footprint) (id : ℕ)
    (w : World) : Lighter w { w with heap := w.heap.modify id f } :=
  ⟨footprint_modify_le hf w.heap id, le_rfl, rfl⟩

theorem sodiumMlock_light (len : ℕ) : Light (sodiumMlock len) := .aside fun _ => rfl

theorem sodiumMunlock_light (id len : ℕ) : Light (sodiumMunlock id len) :=
  .atomic fun w => modifyHeap_lighter (fun b => (b.footprint_wipe len).le) id w

theorem sodiumMemzero_light (id len : ℕ) : Light (sodiumMemzero id len) :=
  .atomic fun w => modifyHeap_lighter (fun b => (b.footprint_wipe len).le) id w

theorem saltCliFreeImpl_light (id : ℕ) : Light (saltCliFreeImpl id) :=
  .atomic fun w => modifyHeap_lighter (fun b => b.footprint_free.trans_le (Nat.zero_le _)) id w

theorem editBlock_light (id : ℕ) (f : Bytes → Option Bytes) : Light (editBlock id f) := by
  refine .step fun w => ?_
  dsimp only
  cases f (blockBytes w id) with
  | none => exact ⟨le_rfl, le_rfl, rfl⟩
  | some bytes => exact modifyHeap_lighter (fun b => (b.footprint_edit _).le) id w

theorem readByte_light (id i : ℕ) : Light (readByte id i) := by
  refine .step fun w => ?_
  cases (blockBytes w id)[i]? <;> exact ⟨le_rfl, le_rfl, rfl⟩

theorem vfprintf_light (sink : Sink) (data : Bytes) : Light (vfprintf sink data) :=
  .aside fun _ => by cases sink <;> rfl

theorem fflush_light (sink : Sink) : Light (fflush sink) := .aside fun _ => by cases sink <;> rfl

theorem saltCliUngetcImpl_light (c : UInt8) : Light (saltCliUngetcImpl c) :=
  .atomic fun w => by
    refine ⟨le_rfl, ?_, rfl⟩
    change w.input.rest.length ≤ (w.input.ungetc c).2.rest.length
    unfold InStream.ungetc
    split_ifs
    · exact le_rfl
    · exact Nat.le_succ _

theorem saltCliSealImpl_light : Light saltCliSealImpl :=
  .atomic fun w => by
    refine ⟨?_, le_rfl, rfl⟩
    dsimp only [record]
    cases w.state.output with
    | none => exact le_rfl
    | some id =>
      cases (sealState w).output with
      | none => exact le_rfl
      | some bytes => exact footprint_modify_le (fun b => (b.footprint_edit _).le) _ _

theorem saltCliSetError_light (useError : Bool) (message : Bytes) (rc : SaltStatus) :
    Light (saltCliSetError useError message rc) :=
  (modifyState_light _ fun _ => by cases useError <;> rfl).bind fun _ => .ret _

theorem saltCliFlushStream_light (stream : Sink) (useError : Bool) (message : Bytes) :
    Light (saltCliFlushStream stream useError message) :=
  (fflush_light stream).bind fun _ => .ite (saltCliSetError_light ..) (.ret _)

theorem saltCliWriteStream_light (stream : Sink) (useError : Bool) (message text : Bytes) :
    Light (saltCliWriteStream stream useError message text) :=
  (vfprintf_light stream text).bind fun _ =>
    .ite (saltCliSetError_light ..) (saltCliFlushStream_light ..)

theorem saltCliReportStreamStatus_light (stream : Sink) (useError : Bool) (rc : SaltStatus)
    (text : Bytes) : Light (saltCliReportStreamStatus stream useError rc text) :=
  (vfprintf_light stream text).bind fun _ => .ite (saltCliSetError_light ..)
    ((saltCliFlushStream_light ..).bind fun _ => .ite (.ret _) (.ret _))

theorem saltCliReportStateError_light (rc : SaltStatus) : Light (saltCliReportStateError rc) :=
  getState_light.bind fun _ => saltCliReportStreamStatus_light ..

theorem writeStateError_light : Light writeStateError :=
  getState_light.bind fun _ => saltCliWriteStream_light ..

theorem reportOrIo_light (rc : SaltStatus) : Light (reportOrIo rc) :=
  writeStateError_light.bind fun _ => .ite (.ret _) (.ret _)

theorem saltCliCheckInterrupted_light : Light saltCliCheckInterrupted :=
  .bind (.aside fun _ => rfl) fun _ => .ite (saltCliSetError_light ..) (.ret _)

theorem reportIfInterrupted_light : Light reportIfInterrupted :=
  saltCliCheckInterrupted_light.bind fun _ => .ite (saltCliReportStateError_light _) (.ret _)

theorem sigaction_light (signal : Signal) (d : Disposition) : Light (sigaction signal d) :=
  .aside fun w => by
    split_ifs <;> cases signal <;> rfl

theorem setSaved_light (signal : Signal) (d : Option Disposition) : Light (setSaved signal d) :=
  .step fun w => by cases signal <;> exact ⟨le_rfl, le_rfl, rfl⟩

theorem saltCliEnsureSignalHandlers_light : Light saltCliEnsureSignalHandlers :=
  .bind (.aside fun _ => rfl) fun _ => .ite (.ret _)
    ((sigaction_light ..).bind fun _ => .ite (.ret _)
      ((setSaved_light ..).bind fun _ => (sigaction_light ..).bind fun _ =>
        .ite ((sigaction_light ..).bind fun _ => (setSaved_light ..).bind fun _ => .ret _)
          ((setSaved_light ..).bind fun _ =>
            .bind (.step fun _ => ⟨le_rfl, le_rfl, rfl⟩) fun _ => .ret _)))

theorem restoreSignalHandler_light (signal : Signal) : Light (restoreSignalHandler signal) := by
  refine .bind (.read _) fun saved => ?_
  cases saved with
  | none => exact .ret _
  | some d => exact (sigaction_light ..).bind fun _ => setSaved_light ..

theorem installStage_light (manageSignals : Bool) : Light (installStage manageSignals) :=
  .ite (saltCliEnsureSignalHandlers_light.bind fun _ =>
    .ite ((saltCliSetError_light ..).bind fun _ => reportOrIo_light _) (.ret _)) (.ret _)

structure Sources (key plaintext : Bool) (w : World) : Prop where
  messageLen : w.state.messageLen ≤ saltGithubSecretMaxValueLen
  keyFromStdin : w.state.keyFromStdin = key
  plaintextFromStdin : w.state.plaintextFromStdin = plaintext

theorem Lighter.sources {key plaintext : Bool} {s t : World} (h : Lighter s t)
    (hs : Sources key plaintext s) : Sources key plaintext t where
  messageLen := (congrArg (fun c => c.1.1) h.choices).trans_le hs.messageLen
  keyFromStdin := (congrArg (fun c => c.1.2.1) h.choices).trans hs.keyFromStdin
  plaintextFromStdin := (congrArg (fun c => c.1.2.2) h.choices).trans hs.plaintextFromStdin

/-- Behind this choice of sources a program may spend so much, and keeps to the choice. -/
structure Costs {α : Type} (key plaintext : Bool) (memory input : ℕ) (m : Cli α) : Prop where
  spends : (expenses.under (Sources key plaintext)).Spends (memory, input) m

section Reading
variable {α β : Type} {m : Cli α} {f : α → Cli β} {key plaintext : Bool}
  {memory memory' input input' : ℕ}

theorem Light.costs (hm : Light m) : Costs key plaintext 0 0 m :=
  ⟨Meter.spends_of_through hm.through fun _ _ h hs => ⟨h.sources hs, h.heap, h.input⟩⟩

theorem Costs.mono (hm : Costs key plaintext memory input m) (hmemory : memory ≤ memory')
    (hinput : input ≤ input') : Costs key plaintext memory' input' m :=
  ⟨hm.spends.mono ⟨hmemory, hinput⟩⟩

theorem Light.costs_any (hm : Light m) : Costs key plaintext memory input m :=
  hm.costs.mono (Nat.zero_le _) (Nat.zero_le _)

theorem Costs.bind (hm : Costs key plaintext memory input m)
    (hf : ∀ a, Costs key plaintext memory' input' (f a)) :
    Costs key plaintext (memory + memory') (input + input') (m >>= f) :=
  ⟨hm.spends.bind fun a => (hf a).spends⟩

theorem Costs.bind_light (hm : Costs key plaintext memory input m) (hf : ∀ a, Light (f a)) :
    Costs key plaintext memory input (m >>= f) :=
  ⟨hm.spends.bind_free fun a => (hf a).costs.spends⟩

theorem Costs.bind_value {Q : α → Prop} (hm : Costs key plaintext memory input m)
    (hq : ∀ w, Ends m w fun a _ => Q a) (hf : ∀ a, Q a → Costs key plaintext 0 0 (f a)) :
    Costs key plaintext memory input (m >>= f) :=
  ⟨Meter.Spends.bind_value hm.spends hq fun a ha => (hf a ha).spends⟩

theorem Light.then (hm : Light m) (hf : ∀ a, Costs key plaintext memory input (f a)) :
    Costs key plaintext memory input (m >>= f) :=
  ⟨.free_bind hm.costs.spends fun a => (hf a).spends⟩

theorem Costs.ite {c : Prop} [Decidable c] {n : Cli α} (hm : Costs key plaintext memory input m)
    (hn : Costs key plaintext memory input n) :
    Costs key plaintext memory input (if c then m else n) := by
  split_ifs <;> assumption

theorem Costs.atomic {f : World → α × World}
    (h : ∀ w, footprint (f w).2.heap ≤ footprint w.heap + memory)
    (h' : ∀ w, w.input.rest.length ≤ (f w).2.input.rest.length + input)
    (hstate : ∀ w, (f w).2.state = w.state) : Costs key plaintext memory input (Salt.atomic f) := by
  refine ⟨Meter.Spends.step fun w hw => ?_⟩
  have hsame : (f w.deliver).2.state = w.state := hstate w.deliver
  exact ⟨⟨hsame ▸ hw.messageLen, hsame ▸ hw.keyFromStdin, hsame ▸ hw.plaintextFromStdin⟩,
    h w.deliver, h' w.deliver⟩

theorem saltCliAllocImpl_costs (size : ℕ) : Costs key plaintext size 0 (saltCliAllocImpl size) := by
  refine .atomic (fun w => ?_) (fun w => ?_) fun w => ?_
  · cases w.env.alloc w.clock with
    | none => exact Nat.le_add_right _ _
    | some content =>
      change footprint (w.heap ++ [_]) ≤ footprint w.heap + size
      rw [footprint_append]
      exact le_rfl
  · cases w.env.alloc w.clock <;> exact le_rfl
  · cases w.env.alloc w.clock <;> rfl

theorem saltCliAllocImpl_then {size : ℕ} {f : Option ℕ → Cli α}
    (hf : ∀ r, Costs key plaintext 0 input (f r)) :
    Costs key plaintext size input (saltCliAllocImpl size >>= f) :=
  ((saltCliAllocImpl_costs size).bind hf).mono le_rfl (Nat.zero_add input).le

theorem saltCliFreadImpl_costs (id maxLen : ℕ) :
    Costs key plaintext 0 maxLen (saltCliFreadImpl id maxLen) := by
  refine .atomic (fun w => ?_) (fun w => ?_) fun w => rfl
  · exact footprint_modify_le (fun b => (b.footprint_edit _).le) w.heap id
  · obtain ⟨n, hn, -, hrest, -⟩ := fread_bytes maxLen w.input
    change w.input.rest.length ≤ (w.input.fread maxLen).2.rest.length + maxLen
    rw [hrest, List.length_drop]
    omega

theorem saltCliFgetcImpl_costs : Costs key plaintext 0 1 saltCliFgetcImpl := by
  refine .atomic (fun w => le_rfl) (fun w => ?_) fun w => rfl
  change w.input.rest.length ≤ w.input.fgetc.2.rest.length + 1
  unfold InStream.fgetc
  split <;> simp_all

theorem cliSecureReleaseBuffer_light (buffer len : ℕ) : Light (cliSecureReleaseBuffer buffer len) :=
  (sodiumMunlock_light ..).bind fun _ =>
    .ite ((sodiumMemzero_light ..).bind fun _ => saltCliFreeImpl_light _) (saltCliFreeImpl_light _)

theorem failRead_light (buffer maxLen : ℕ) (message : Bytes) (rc : SaltStatus) :
    Light (failRead buffer maxLen message rc) :=
  (saltCliSetError_light ..).bind fun _ => (cliSecureReleaseBuffer_light ..).bind fun _ => .ret _

theorem finishRead_light (buffer bytesRead : ℕ) : Light (finishRead buffer bytesRead) :=
  (editBlock_light ..).bind fun _ => .ret _

theorem probeRead_costs (buffer maxLen : ℕ) : Costs key plaintext 0 1 (probeRead buffer maxLen) := by
  refine saltCliFgetcImpl_costs.bind_light fun nextChar => ?_
  cases nextChar with
  | none => exact (Light.read _).bind fun _ => .ite (failRead_light ..) (finishRead_light ..)
  | some c =>
    exact (saltCliUngetcImpl_light c).bind fun _ => .ite (failRead_light ..) (failRead_light ..)

theorem fillBuffer_costs (buffer maxLen : ℕ) :
    Costs key plaintext 0 (maxLen + 1) (fillBuffer buffer maxLen) :=
  (sodiumMlock_light _).then fun _ => (saltCliFreadImpl_costs buffer maxLen).bind fun _ =>
    saltCliCheckInterrupted_light.then fun _ =>
      .ite ((cliSecureReleaseBuffer_light ..).bind fun _ => .ret _).costs_any
        ((Light.read _).then fun _ => .ite (failRead_light ..).costs_any
          (.ite (probeRead_costs ..) (finishRead_light ..).costs_any))

theorem cliInputReadStreamLimited_costs (maxLen : ℕ) :
    Costs key plaintext (maxLen + 1) (maxLen + 1) (cliInputReadStreamLimited maxLen) := by
  refine (Light.read _).then fun width => .ite
    ((saltCliSetError_light ..).bind fun _ => .ret _).costs_any
    (saltCliCheckInterrupted_light.then fun rc => .ite (Light.ret _).costs_any ?_)
  refine saltCliAllocImpl_then fun buffer => ?_
  cases buffer with
  | none => exact ((saltCliSetError_light ..).bind fun _ => .ret _).costs_any
  | some buffer => exact fillBuffer_costs ..

def Short (maxLen : ℕ) (r : ReadResult) : Prop := ∀ id n, r.2 = some (id, n) → n ≤ maxLen

theorem Short.none (maxLen : ℕ) (rc : SaltStatus) : Short maxLen (rc, none) := fun _ _ h =>
  nomatch h

theorem Short.some {maxLen n : ℕ} (rc : SaltStatus) (id : ℕ) (hn : n ≤ maxLen) :
    Short maxLen (rc, some (id, n)) := fun _ _ h => by
  obtain ⟨rfl, rfl⟩ := Prod.mk.inj (Option.some.inj h)
  exact hn

theorem probeRead_short (buffer maxLen : ℕ) (w : World) :
    Ends (probeRead buffer maxLen) w fun r _ => Short maxLen r := by
  refine .then fun nextChar w₁ => ?_
  cases nextChar with
  | none =>
    exact .then fun failed w₂ => .ite (fun _ => Short.none _ _) fun _ => Short.some _ _ le_rfl
  | some c =>
    exact .then fun restored w₂ => .ite (fun _ => Short.none _ _) fun _ => Short.none _ _

theorem fillBuffer_short (buffer maxLen : ℕ) (w : World) :
    Ends (fillBuffer buffer maxLen) w fun r _ => Short maxLen r := by
  have hread (w : World) : Ends (saltCliFreadImpl buffer maxLen) w fun n _ => n ≤ maxLen := by
    obtain ⟨n, hn, hbytes, -⟩ := fread_bytes maxLen w.deliver.input
    change (w.deliver.input.fread maxLen).1.length ≤ maxLen
    rw [hbytes, List.length_take]
    exact (min_le_left _ _).trans hn
  refine .then fun _ w₁ => (hread w₁).bind fun n w₂ hn => ?_
  refine Ends.then fun rc w₃ => .ite (fun _ => Short.none _ _) fun _ => ?_
  refine Ends.then fun failed w₄ => .ite (fun _ => Short.none _ _) fun _ => ?_
  exact .ite (fun _ => probeRead_short buffer maxLen w₄) fun _ => Short.some _ _ hn

theorem cliInputReadStreamLimited_short (maxLen : ℕ) (w : World) :
    Ends (cliInputReadStreamLimited maxLen) w fun r _ => Short maxLen r := by
  refine Ends.then fun width w₁ => .ite (fun _ => Short.none _ _) fun _ => ?_
  refine Ends.then fun rc w₂ => .ite (fun _ => Short.none _ _) fun _ => ?_
  refine Ends.then fun buffer w₃ => ?_
  cases buffer with
  | none => exact Short.none _ _
  | some buffer => exact fillBuffer_short buffer maxLen w₃

theorem costs_read {g : World → α} {f : α → Cli β}
    (hf : ∀ w, Sources key plaintext w → Costs key plaintext memory input (f (g w))) :
    Costs key plaintext memory input (Traced.read g >>= f) :=
  ⟨Meter.spends_under fun w hw => Stays.congr rfl ((hf w hw).spends w)⟩

theorem storeMessage_costs (f : CliState → CliState) {n : ℕ} (hn : n ≤ saltGithubSecretMaxValueLen)
    (h : ∀ s, choices (f s) = ((n, (choices s).1.2), (choices s).2) := by exact fun _ => rfl) :
    Costs key plaintext 0 0 (modifyState f) :=
  ⟨.step fun w hw => ⟨⟨(congrArg (fun c => c.1.1) (h w.state)).trans_le hn,
    (congrArg (fun c => c.1.2.1) (h w.state)).trans hw.keyFromStdin,
    (congrArg (fun c => c.1.2.2) (h w.state)).trans hw.plaintextFromStdin⟩, le_rfl, le_rfl⟩⟩

theorem loadKeyFromStdin_costs :
    Costs key plaintext (saltMaxKeyInputLen + 1) (saltMaxKeyInputLen + 1) loadKeyFromStdin := by
  refine (cliInputReadStreamLimited_costs saltMaxKeyInputLen).bind_light fun r => ?_
  obtain ⟨rc, _ | ⟨stdinKey, keyLen⟩⟩ := r
  · exact saltCliReportStateError_light rc
  · exact (modifyState_light _).bind fun _ =>
      (editBlock_light ..).bind fun _ => (readByte_light ..).bind fun _ =>
        .ite (saltCliReportStreamStatus_light ..)
          ((modifyState_light _).bind fun _ => .ret _)

theorem keyFromStdinStage_costs : Costs key plaintext (saltMaxKeyInputLen + 1)
    (if key then saltMaxKeyInputLen + 1 else 0) keyFromStdinStage := by
  refine costs_read fun w hw => ?_
  rw [hw.keyFromStdin]
  cases key
  · exact (Light.ret _).costs_any
  · exact loadKeyFromStdin_costs

theorem copyKeyOption_costs : Costs key plaintext (saltMaxKeyInputLen + 1) 0 copyKeyOption := by
  refine getState_light.then fun s => (Light.read _).then fun source => ?_
  cases cliBoundedStrlen source (saltMaxKeyInputLen + 1) with
  | none => exact (undefinedBehaviour_light.bind fun _ => .ret _).costs_any
  | some keyCopyLen =>
    by_cases hlong : saltMaxKeyInputLen < keyCopyLen
    · simp only [if_pos hlong]
      exact (saltCliReportStreamStatus_light ..).costs_any
    simp only [if_neg hlong]
    refine (saltCliAllocImpl_then fun copy => ?_).mono (Nat.succ_le_succ (not_lt.1 hlong)) le_rfl
    cases copy with
    | none => exact (saltCliReportStreamStatus_light ..).costs
    | some copy =>
      exact ((modifyState_light _).bind fun _ =>
        (sodiumMlock_light _).bind fun _ => (editBlock_light ..).bind fun _ =>
          (editBlock_light ..).bind fun _ => .ret _).costs

theorem parseKeyOfState_light : Light parseKeyOfState := by
  refine .step fun w => ?_
  cases parseTrimmedKey w with
  | none => exact ⟨le_rfl, le_rfl, rfl⟩
  | some r => exact ⟨le_rfl, le_rfl, rfl⟩

theorem saltCliInputLoadKeyInput_costs : Costs key plaintext (2 * (saltMaxKeyInputLen + 1))
    (if key then saltMaxKeyInputLen + 1 else 0) saltCliInputLoadKeyInput := by
  refine (keyFromStdinStage_costs.bind fun rc => Costs.ite (Light.ret _).costs_any
    (copyKeyOption_costs.bind_light fun rc => .ite (.ret _)
      (parseKeyOfState_light.bind fun rc => .ite (saltCliReportStateError_light _)
        reportIfInterrupted_light))).mono (Nat.two_mul _).ge (Nat.add_zero _).le

theorem loadPlaintextFromStdin_costs : Costs key plaintext (saltGithubSecretMaxValueLen + 1)
    (saltGithubSecretMaxValueLen + 1) loadPlaintextFromStdin := by
  refine (cliInputReadStreamLimited_costs saltGithubSecretMaxValueLen).bind_value
    (cliInputReadStreamLimited_short saltGithubSecretMaxValueLen) fun r hr => ?_
  obtain ⟨rc, _ | ⟨stdinPlaintext, messageLen⟩⟩ := r
  · exact (saltCliReportStateError_light rc).costs
  · exact (storeMessage_costs _ (hr _ _ rfl)).bind_light fun _ => .ret _

theorem saltCliLoadPlaintextFromArgv_costs (plaintextArg : ℕ) : Costs key plaintext
    (saltGithubSecretMaxValueLen + 1) 0 (saltCliLoadPlaintextFromArgv plaintextArg) := by
  refine (Light.read _).then fun source => (Light.read _).then fun width => ?_
  cases cliBoundedStrlen source (saltGithubSecretMaxValueLen + 1) with
  | none => exact (undefinedBehaviour_light.bind fun _ => .ret _).costs_any
  | some argLen =>
    by_cases hlong : saltGithubSecretMaxValueLen < argLen
    · simp only [if_pos hlong]
      exact (saltCliReportStreamStatus_light ..).costs_any
    simp only [if_neg hlong]
    refine .ite (saltCliReportStreamStatus_light ..).costs_any
      ((modifyState_light _).then fun _ => ?_)
    refine (saltCliAllocImpl_then fun copy => ?_).mono (Nat.succ_le_succ (not_lt.1 hlong)) le_rfl
    cases copy with
    | none => exact (saltCliReportStreamStatus_light ..).costs
    | some copy =>
      exact (modifyState_light _).then fun _ =>
        (sodiumMlock_light _).then fun _ => (editBlock_light ..).then fun _ =>
          Light.then (.aside fun _ => rfl) fun _ =>
            (storeMessage_costs _ (not_lt.1 hlong)).bind_light fun _ => .ret _

theorem loadPlaintextSource_costs : Costs key plaintext (saltGithubSecretMaxValueLen + 1)
    (if plaintext then saltGithubSecretMaxValueLen + 1 else 0) loadPlaintextSource := by
  refine costs_read fun w hw => ?_
  rw [hw.plaintextFromStdin]
  cases plaintext
  · exact saltCliLoadPlaintextFromArgv_costs _
  · exact loadPlaintextFromStdin_costs

theorem saltCliInputLoadPlaintext_costs : Costs key plaintext (saltGithubSecretMaxValueLen + 1)
    (if plaintext then saltGithubSecretMaxValueLen + 1 else 0) saltCliInputLoadPlaintext :=
  loadPlaintextSource_costs.bind_light fun _ => .ite (.ret _) (reportIfInterrupted_light.bind fun _ =>
    .ite (.ret _) (getState_light.bind fun _ => .ite (saltCliReportStreamStatus_light ..) (.ret _)))

theorem exactOutputLen_mono {m n : ℕ} (h : m ≤ n) : exactOutputLen m ≤ exactOutputLen n := by
  unfold exactOutputLen
  omega

theorem saltRequiredBase64OutputLen_le (W : SizeWidth) (messageLen : ℕ) :
    saltRequiredBase64OutputLen W messageLen ≤ exactOutputLen messageLen := by
  rcases le_or_gt (exactOutputLen messageLen) (sizeMax W) with h | h
  · exact (saltRequiredBase64OutputLen_of_le h).le
  · exact (saltRequiredBase64OutputLen_of_gt h).trans_le h.le

theorem checkSealed_light : Light checkSealed :=
  saltCliCheckInterrupted_light.bind fun _ => .bind (.step fun _ => ⟨le_rfl, le_rfl, rfl⟩) fun _ =>
    .ite (saltCliReportStateError_light _) (getState_light.bind fun _ =>
      .ite (saltCliReportStreamStatus_light ..) (.ret _))

theorem sealIntoOutput_light (output outputSize : ℕ) : Light (sealIntoOutput output outputSize) :=
  (modifyState_light _).bind fun _ => (sodiumMlock_light _).bind fun _ =>
    saltCliSealImpl_light.bind fun _ => .ite (saltCliReportStateError_light _) checkSealed_light

theorem choices_resolveEffectiveKeyId (s : CliState) :
    choices (resolveEffectiveKeyId s) = choices s := by
  unfold resolveEffectiveKeyId
  split <;> split_ifs <;> rfl

theorem saltCliPrepareOutput_costs :
    Costs key plaintext (exactOutputLen saltGithubSecretMaxValueLen) 0 saltCliPrepareOutput := by
  refine (modifyState_light _ choices_resolveEffectiveKeyId).then fun _ => costs_read fun w hw => ?_
  refine .ite (saltCliReportStreamStatus_light ..).costs_any ?_
  refine (saltCliAllocImpl_then fun output => ?_).mono ((saltRequiredBase64OutputLen_le ..).trans
    (exactOutputLen_mono hw.messageLen)) le_rfl
  cases output with
  | none => exact (saltCliReportStreamStatus_light ..).costs
  | some output => exact (sealIntoOutput_light ..).costs

end Reading

theorem cliStreamWriteError_light (message : Bytes) : Light (cliStreamWriteError message) :=
  (modifyState_light _).bind fun _ => .ret _

theorem cliStreamWrite_light (data : Bytes) : Light (cliStreamWrite data) :=
  (vfprintf_light ..).bind fun _ => .ite (cliStreamWriteError_light _) (.ret _)

theorem cliStreamFlush_light : Light cliStreamFlush :=
  (fflush_light _).bind fun _ => .bind (.read _) fun _ =>
    .ite (cliStreamWriteError_light _) (.ret _)

theorem writeJsonByte_light (c : UInt8) : Light (writeJsonByte c) :=
  .ite ((cliStreamWrite_light _).bind fun _ => .ite (.ret _) (cliStreamWrite_light _))
    (.ite (cliStreamWrite_light _) (.ite (cliStreamWrite_light _) (.ite (cliStreamWrite_light _)
      (.ite (cliStreamWrite_light _) (cliStreamWrite_light _)))))

theorem writeJsonBytes_light (bytes : Bytes) : Light (writeJsonBytes bytes) := by
  induction bytes with
  | nil => exact cliStreamWrite_light _
  | cons c cursor ih => exact (writeJsonByte_light c).bind fun _ => .ite (.ret _) ih

theorem writeJsonString_light (value : CString) : Light (writeJsonString value) :=
  (cliStreamWrite_light _).bind fun _ => .ite (.ret _) (writeJsonBytes_light _)

theorem writeAll_light {writes : List (Cli SaltStatus)} (h : ∀ m ∈ writes, Light m) :
    Light (writeAll writes) := by
  induction writes with
  | nil => exact .ret _
  | cons m writes ih =>
    exact (h m List.mem_cons_self).bind fun _ =>
      .ite (.ret _) (ih fun m' hm' => h m' (List.mem_cons_of_mem _ hm'))

theorem emitJson_light (value keyId : CString) : Light (emitJson value keyId) := by
  refine .bind (writeAll_light fun m hm => ?_) fun _ => .ite (.ret _) cliStreamFlush_light
  simp only [List.mem_cons, List.not_mem_nil, or_false] at hm
  rcases hm with rfl | rfl | rfl | rfl | rfl | rfl
  · exact cliStreamWrite_light _
  · exact cliStreamWrite_light _
  · exact writeJsonString_light value
  · exact cliStreamWrite_light _
  · exact writeJsonString_light keyId
  · exact cliStreamWrite_light _

theorem emitError_light (message : Bytes) : Light (emitError message) :=
  (modifyState_light _).bind fun _ => .ret _

theorem saltCliEmitOutput_light (mode : OutputMode) (value : CString) (keyId : Option CString) :
    Light (saltCliEmitOutput mode value keyId) := by
  refine .ite ((cliStreamWrite_light _).bind fun _ => .ite (.ret _) cliStreamFlush_light) ?_
  cases keyId with
  | none => exact emitError_light _
  | some keyId =>
    exact .ite (emitError_light _) (.ite (emitError_light _) (emitJson_light value keyId))

theorem emitStage_light : Light emitStage :=
  getState_light.bind fun _ => .bind (.read _) fun _ => (saltCliEmitOutput_light ..).bind fun _ =>
    .ite (reportOrIo_light _) (.ret _)

/-- The blocks of the key, of the plaintext and of the ciphertext at their limits. -/
def memoryBudget : ℕ :=
  2 * (saltMaxKeyInputLen + 1) + (saltGithubSecretMaxValueLen + 1) +
    exactOutputLen saltGithubSecretMaxValueLen

/-- The longest read, and one byte behind it. -/
def inputBudget : ℕ := saltGithubSecretMaxValueLen + 1

theorem encryptStages_costs {key plaintext : Bool} (hboth : ¬ (key = true ∧ plaintext = true)) :
    Costs key plaintext memoryBudget inputBudget encryptStages := by
  refine Costs.mono (saltCliInputLoadKeyInput_costs.bind fun rc => Costs.ite (Light.ret _).costs_any
    (saltCliInputLoadPlaintext_costs.bind fun rc => Costs.ite (Light.ret _).costs_any
      (saltCliPrepareOutput_costs.bind_light fun rc => .ite (.ret _) emitStage_light)))
    (Nat.add_assoc _ _ _).ge ?_
  cases key <;> cases plaintext
  · decide
  · decide
  · decide
  · exact absurd ⟨rfl, rfl⟩ hboth

/-- What holds across the arguments, which choose the sources. -/
structure Settled (s t : World) : Prop where
  heap : footprint t.heap ≤ footprint s.heap
  input : s.input.rest.length ≤ t.input.rest.length
  messageLen : t.state.messageLen = s.state.messageLen

theorem Settled.trans {r s t : World} (h : Settled r s) (h' : Settled s t) : Settled r t :=
  ⟨h'.heap.trans h.heap, h.input.trans h'.input, h'.messageLen.trans h.messageLen⟩

structure Settles {α : Type} (m : Cli α) : Prop where
  through : Through Settled m

section Settling
variable {α β : Type} {m n : Cli α} {f : α → Cli β}

theorem Light.settles (hm : Light m) : Settles m :=
  ⟨fun w => hm.through.stays (P := Settled w) fun _ h =>
    ⟨h.heap, h.input, congrArg (fun c => c.1.1) h.choices⟩⟩

theorem Settles.bind (hm : Settles m) (hf : ∀ a, Settles (f a)) : Settles (m >>= f) :=
  ⟨.bind (fun _ _ _ h h' => h.trans h') hm.through fun a => (hf a).through⟩

theorem Settles.ite {c : Prop} [Decidable c] (hm : Settles m) (hn : Settles n) :
    Settles (if c then m else n) := by
  split_ifs <;> assumption

theorem Settles.spends (hm : Settles m) : expenses.Spends (0, 0) m :=
  Meter.spends_of_through hm.through fun _ _ h => ⟨h.heap, h.input⟩

theorem handleOption_messageLen {s s' : CliState} {event : OptEvent}
    (h : handleOption s event = .ok s') : s'.messageLen = s.messageLen := by
  cases event with
  | output v =>
    simp only [handleOption] at h
    split at h
    · cases h
      rfl
    · cases h
  | keyFormat v =>
    simp only [handleOption] at h
    split at h
    · cases h
      rfl
    · cases h
  | key v => cases h; rfl
  | keyId v => cases h; rfl
  | help => cases h; rfl
  | version => cases h; rfl
  | missingArgument optopt => cases h
  | unknown optopt token => cases h

theorem saltCliHandleOption_settles (event : OptEvent) : Settles (saltCliHandleOption event) := by
  refine ⟨fun w => Stays.bind (fun _ ht => absurd ht List.not_mem_nil) ?_⟩
  simp only [getState, read_value, read_final]
  cases h : handleOption w.state event with
  | ok s =>
    have hset : Settled w { w with state := s } := ⟨le_rfl, le_rfl, handleOption_messageLen h⟩
    exact Stays.bind (fun t ht => List.mem_singleton.1 ht ▸ hset) (.ret hset)
  | error text => exact (saltCliReportStreamStatus_light ..).settles.through w

theorem handleOptions_settles (events : List OptEvent) : Settles (handleOptions events) := by
  induction events with
  | nil => exact (Light.ret _).settles
  | cons event rest ih =>
    exact (saltCliHandleOption_settles event).bind fun _ => .ite (Light.ret _).settles ih

theorem printUsage_light (stream : Sink) (program : CString) : Light (printUsage stream program) :=
  saltCliWriteStream_light ..

theorem printVersion_light (stream : Sink) : Light (printVersion stream) :=
  .bind (.read _) fun _ => saltCliWriteStream_light ..

theorem reportWithUsage_light (program : CString) (text : Bytes) :
    Light (reportWithUsage program text) :=
  (saltCliReportStreamStatus_light ..).bind fun _ => .ite (.ret _)
    ((printUsage_light ..).bind fun _ => .ite (.ret _) (.ret _))

theorem checkOptions_settles (inv : Invocation) : Settles (checkOptions inv) :=
  getState_light.settles.bind fun _ => .ite (reportWithUsage_light ..).settles
    (.ite (saltCliReportStreamStatus_light ..).settles
      (.ite (saltCliReportStreamStatus_light ..).settles
        (.ite ((modifyState_light _).bind fun _ => reportWithUsage_light ..).settles
          (.bind ⟨.step fun _ => ⟨le_rfl, le_rfl, rfl⟩⟩ fun _ =>
            (getState_light.bind fun _ =>
              .ite (saltCliReportStreamStatus_light ..) (.ret _)).settles))))

theorem dispatchOptions_settles (inv : Invocation) : Settles (dispatchOptions inv) :=
  getState_light.settles.bind fun _ => .ite (printUsage_light ..).settles
    (.ite (printVersion_light _).settles (checkOptions_settles inv))

theorem saltCliArgsParseArguments_settles (inv : Invocation) :
    Settles (saltCliArgsParseArguments inv) :=
  (handleOptions_settles inv.events).bind fun _ => .ite (Light.ret _).settles
    (dispatchOptions_settles inv)

end Settling

/-- A good command line that asks for an encryption reads at most one of the two from the input. -/
def OneFromStdin (rc : SaltStatus) (w : World) : Prop :=
  rc = .ok → w.state.showHelp = false → w.state.showVersion = false →
    ¬ (w.state.keyFromStdin = true ∧ w.state.plaintextFromStdin = true)

theorem oneFromStdin_of_ne {rc : SaltStatus} (h : rc ≠ .ok) (w : World) : OneFromStdin rc w :=
  fun hrc => absurd hrc h

theorem checkOptions_sources (inv : Invocation) (w : World) :
    Ends (checkOptions inv) w OneFromStdin := by
  refine Ends.bind_read rfl (.ite (fun _ => ?_) fun _ => .ite (fun _ => ?_) fun _ =>
    .ite (fun _ => ?_) fun _ => .ite (fun _ => ?_) fun _ => ?_)
  · exact (reportWithUsage_ne_ok _ _ w).mono fun _ w' h => oneFromStdin_of_ne h w'
  · exact (saltCliReportStreamStatus_ne_ok w true (by decide) _).mono fun _ w' h =>
      oneFromStdin_of_ne h w'
  · exact (saltCliReportStreamStatus_ne_ok w true (by decide) _).mono fun _ w' h =>
      oneFromStdin_of_ne h w'
  · refine Ends.then fun _ w₁ => ?_
    exact (reportWithUsage_ne_ok _ _ w₁).mono fun _ w' h => oneFromStdin_of_ne h w'
  · refine Ends.then fun _ w₁ => ?_
    refine Ends.bind_read rfl (.ite (fun _ => ?_) fun hnot => ?_)
    · exact (saltCliReportStreamStatus_ne_ok w₁ true (by decide) _).mono fun _ w' h =>
        oneFromStdin_of_ne h w'
    · exact .ret fun _ _ _ hboth => hnot (by simp [hboth.1, hboth.2])

theorem saltCliArgsParseArguments_sources (inv : Invocation) (w : World) :
    Ends (saltCliArgsParseArguments inv) w OneFromStdin := by
  refine Ends.then fun rc w₁ => .ite
    (fun hne => .ret (oneFromStdin_of_ne hne w₁)) fun _ => ?_
  have hshown {m : Cli SaltStatus} (hm : Light m) :
      w₁.state.showHelp = true ∨ w₁.state.showVersion = true → Ends m w₁ OneFromStdin := by
    -- The texts are written without a change of what was asked for.
    intro hshow _ hhelp hversion
    have hchoices := (hm.through w₁).1.choices
    rcases hshow with hshow | hshow
    · have hsame := (congrArg (fun c => c.2.1) hchoices).trans hshow
      exact absurd (hhelp.symm.trans hsame) Bool.false_ne_true
    · have hsame := (congrArg (fun c => c.2.2) hchoices).trans hshow
      exact absurd (hversion.symm.trans hsame) Bool.false_ne_true
  refine Ends.bind_read rfl (.ite (fun hhelp => hshown (printUsage_light ..) (.inl hhelp)) fun _ =>
    .ite (fun hversion => hshown (printVersion_light _) (.inr hversion)) fun _ => ?_)
  exact checkOptions_sources inv w₁

theorem finishArguments_light (s : CliState) (rc : SaltStatus) : Light (finishArguments s rc) :=
  .ite (writeStateError_light.bind fun _ => .ret _) (.ret _)

theorem runArguments_spends (inv : Invocation) {w : World}
    (hw : w.state.messageLen ≤ saltGithubSecretMaxValueLen) :
    expenses.SpendsAt (memoryBudget, inputBudget) (runArguments inv) w := by
  have hsettled := ((saltCliArgsParseArguments_settles inv).through w).1
  have hsources : OneFromStdin _ _ := saltCliArgsParseArguments_sources inv w
  refine ((saltCliArgsParseArguments_settles inv).spends w).free_bind
    (.free_bind (getState_light.spends _) ?_)
  generalize (saltCliArgsParseArguments inv w).value = rc at hsources ⊢
  generalize (saltCliArgsParseArguments inv w).final = w₁ at hsettled hsources ⊢
  refine .ite (fun _ => (finishArguments_light _ _).spends_any w₁) fun hstop => ?_
  simp only [getState, read_value, ne_eq, Bool.or_eq_true, decide_eq_true_eq, not_or, not_not,
    Bool.not_eq_true] at hstop
  obtain ⟨⟨hrc, hhelp⟩, hversion⟩ := hstop
  exact ((encryptStages_costs (hsources hrc hhelp hversion)).spends w₁).of_under
    ⟨hsettled.messageLen.trans_le hw, rfl, rfl⟩

theorem runStages_spends (inv : Invocation) (manageSignals : Bool) {w : World}
    (hw : w.state.messageLen ≤ saltGithubSecretMaxValueLen) :
    expenses.SpendsAt (memoryBudget, inputBudget) (runStages inv manageSignals) w := by
  have hinstall := installStage_light manageSignals
  have hreset : Light saltCliResetInterrupted := .aside fun _ => rfl
  refine (hinstall.spends w).free_bind (.ite (fun _ => (Light.ret _).spends_any _) fun _ =>
    ((hreset.spends _).free_bind (runArguments_spends inv ?_)))
  rw [(hreset.settles.through _).1.messageLen, (hinstall.settles.through w).1.messageLen]
  exact hw

theorem unlockFixedBuffer_light (buffer : FixedBuffer) : Light (unlockFixedBuffer buffer) :=
  .bind (.atomic fun _ => ⟨le_rfl, le_rfl, by cases buffer <;> rfl⟩) fun _ =>
    .ite (modifyState_light _ fun _ => by cases buffer <;> rfl) (.ret _)

theorem saltCliSecureFreeRegion_light (id : Option ℕ) (len : ℕ) :
    Light (saltCliSecureFreeRegion id len) := by
  cases id with
  | none => exact .ret _
  | some id =>
    exact .bind (.ite (.ret _) ((sodiumMunlock_light ..).bind fun _ =>
      .ite (sodiumMemzero_light ..) (.ret _))) fun _ => saltCliFreeImpl_light id

theorem modifyState_spends (f : CliState → CliState) : expenses.Spends (0, 0) (modifyState f) :=
  .step fun _ => ⟨le_rfl, le_rfl⟩

theorem saltCliStateCleanup_spends : expenses.Spends (0, 0) saltCliStateCleanup :=
  .free_bind getState_light.spends fun _ =>
    .free_bind (saltCliSecureFreeRegion_light ..).spends fun _ =>
    .free_bind (saltCliSecureFreeRegion_light ..).spends fun _ =>
    .free_bind (saltCliSecureFreeRegion_light ..).spends fun _ =>
    .free_bind (saltCliSecureFreeRegion_light ..).spends fun _ =>
    .free_bind (saltCliSecureFreeRegion_light ..).spends fun _ =>
    .free_bind (Light.ite ((unlockFixedBuffer_light _).bind fun _ => (unlockFixedBuffer_light _).bind
      fun _ => unlockFixedBuffer_light _) (.ret _)).spends fun _ => modifyState_spends _

theorem cleanupRun_spends (manageSignals : Bool) : expenses.Spends (0, 0) (cleanupRun manageSignals) :=
  .ite (.free_bind ((restoreSignalHandler_light _).bind fun _ =>
    restoreSignalHandler_light _).spends fun _ => saltCliStateCleanup_spends) saltCliStateCleanup_spends

theorem saltCliStateInit_spends : expenses.Spends (0, 0) saltCliStateInit :=
  .free_bind (modifyState_spends _) fun _ => .free_bind (modifyState_spends _) fun _ =>
    .free_bind (sodiumMlock_light _).spends fun _ => .free_bind (sodiumMlock_light _).spends fun _ =>
      .free_bind (sodiumMlock_light _).spends fun _ => modifyState_spends _

/-- Whatever the arguments, the input and the environment, every state of a run holds at most
`memoryBudget` bytes in live blocks beyond those of its start, and a run takes at most `inputBudget`
bytes from the input stream. -/
theorem saltCliRunWithStreamsInternal_bounded (inv : Invocation) (nullStream manageSignals : Bool)
    (w : World) : Stays (fun t => footprint t.heap ≤ footprint w.heap + memoryBudget ∧
      w.input.rest.length ≤ t.input.rest.length + inputBudget)
    (saltCliRunWithStreamsInternal inv nullStream manageSignals) w := by
  have hrun : expenses.SpendsAt (memoryBudget, inputBudget)
      (saltCliRunWithStreamsInternal inv nullStream manageSignals) w := by
    unfold saltCliRunWithStreamsInternal
    split_ifs
    · exact (Light.ret _).spends_any w
    · refine (saltCliStateInit_spends w).free_bind ?_
      exact (runStages_spends inv manageSignals (Nat.zero_le _)).bind_free fun rc =>
        (cleanupRun_spends manageSignals).bind_free fun _ => (Light.ret rc).spends
  exact hrun

example : memoryBudget = 147524 ∧ inputBudget = 49153 := by decide

end Salt.Footprint
