import Salt.TwoRuns

set_option autoImplicit false

/-!
# The stages of two runs

Each stage takes two like worlds to like worlds and gives both runs one
status. What a stage reads decides what the runs must have in common: the
arguments but for the plaintext, the sizes of the input and its faults, the
text of the key.
-/
namespace Salt.TwoRunStages
open ByteStrings BlockHeap TracedState Sealing KeyParsing Trimming KeyParsingCorrect KeyInputCorrect
  StreamFacts Framing Tracking ReportingCorrect Ownership ReadCorrect KeyLoading PlaintextLoading TwoRuns

/-- Command lines that differ at most in the bytes of a positional plaintext. -/
structure SameCommand (inv inv' : Invocation) : Prop where
  shape : saltCliHasValidArgvShape inv = saltCliHasValidArgvShape inv'
  events : inv.events = inv'.events
  program : inv.program = inv'.program
  count : inv.positionals.length = inv'.positionals.length
  selects : selectPositionals inv.positionals = selectPositionals inv'.positionals

section Arguments
variable {K : Known} {k k' : ℕ} {inv inv' : Invocation}

theorem handleOption_moved (n : ℕ) (s : CliState) (event : OptEvent) :
    handleOption (moved n s) event = (handleOption s event).map (moved n) := by
  cases event with
  | output v =>
    simp only [handleOption]
    cases outputModeOf v <;> rfl
  | keyFormat v =>
    simp only [handleOption]
    cases keyFormatOf v <;> rfl
  | _ => rfl

theorem saltCliHandleOption_paired (event : OptEvent) :
    Same K k k' (saltCliHandleOption event) (saltCliHandleOption event) := by
  refine getState_paired.bind ?_
  rintro _ _ ⟨s, rfl, rfl⟩
  rw [handleOption_moved, handleOption_moved]
  cases handleOption s event with
  | ok s₁ =>
    exact (modifyState_paired (g := fun _ => s₁) (fun _ => rfl) fun _ => rfl).bind_eq
      fun _ => .ret rfl
  | error text => exact saltCliReportStreamStatus_paired _ _ _ _

theorem handleOptions_paired (events : List OptEvent) :
    Same K k k' (handleOptions events) (handleOptions events) := by
  induction events with
  | nil => exact .ret rfl
  | cons event rest ih =>
    exact (saltCliHandleOption_paired event).bind_eq fun _ => .ite .rfl (.ret rfl) ih

theorem printUsage_paired (stream : Sink) (program : CString) :
    Same K k k' (printUsage stream program) (printUsage stream program) :=
  saltCliWriteStream_paired _ _ _ _

theorem printVersion_paired (stream : Sink) :
    Same K k k' (printVersion stream) (printVersion stream) :=
  (read_paired fun _ _ h => h.env.version).bind_eq fun _ => saltCliWriteStream_paired _ _ _ _

theorem reportWithUsage_paired (program : CString) (text : Bytes) :
    Same K k k' (reportWithUsage program text) (reportWithUsage program text) :=
  (saltCliReportStreamStatus_paired _ _ _ _).bind_eq fun _ => .ite .rfl (.ret rfl)
    ((printUsage_paired _ _).bind_eq fun _ => .ite .rfl (.ret rfl) (.ret rfl))

theorem keyOptionIs_moved (n : ℕ) (s : CliState) (bytes : Bytes) :
    keyOptionIs (moved n s) bytes = keyOptionIs s bytes := by
  simp only [keyOptionIs, moved]
  rcases s.keyOption with _ | _ | _ <;> rfl

theorem selectPositionals_moved (n : ℕ) (positionals : List CString) (s : CliState) :
    selectPositionals positionals (moved n s) = moved n (selectPositionals positionals s) := by
  simp only [selectPositionals, keyOptionIs_moved]
  rfl

theorem checkOptions_paired (h : SameCommand inv inv') :
    Same K k k' (checkOptions inv) (checkOptions inv') := by
  unfold checkOptions
  rw [h.program, h.count, h.selects]
  refine getState_paired.bind ?_
  rintro _ _ ⟨s, rfl, rfl⟩
  have hnone (n : ℕ) : (moved n s).keyOption.isNone = s.keyOption.isNone := Option.isNone_map
  have hlong (n : ℕ) : keyIdTooLong (moved n s) = keyIdTooLong s := rfl
  simp only [hnone, keyOptionIs_moved, hlong]
  refine .ite .rfl (reportWithUsage_paired _ _) ?_
  refine .ite .rfl (saltCliReportStreamStatus_paired _ _ _ _) ?_
  refine .ite .rfl (saltCliReportStreamStatus_paired _ _ _ _) ?_
  refine .ite .rfl ?_ ?_
  · exact (modifyState_paired (g := fun s => { s with plaintextArg := some 0 }) (fun _ => rfl)
      fun _ => rfl).bind_eq fun _ => reportWithUsage_paired _ _
  · refine (modifyState_paired (selectPositionals_moved k _)
      (selectPositionals_moved k' _)).bind_eq fun _ => getState_paired.bind ?_
    rintro _ _ ⟨s₁, rfl, rfl⟩
    exact .ite .rfl (saltCliReportStreamStatus_paired _ _ _ _) (.ret rfl)

theorem saltCliArgsParseArguments_paired (h : SameCommand inv inv') :
    Same K k k' (saltCliArgsParseArguments inv) (saltCliArgsParseArguments inv') := by
  unfold saltCliArgsParseArguments
  rw [h.events]
  refine (handleOptions_paired _).bind_eq fun _ => .ite .rfl (.ret rfl) ?_
  refine getState_paired.bind ?_
  rintro _ _ ⟨s, rfl, rfl⟩
  refine .ite .rfl ?_ (.ite .rfl (printVersion_paired _) (checkOptions_paired h))
  rw [h.program]
  exact printUsage_paired _ _

end Arguments

section Input
variable {input : Prop} {s s' : InStream}

theorem sameInput_fread (h : SameInput input s s') (maxLen : ℕ) :
    (s.fread maxLen).1.length = (s'.fread maxLen).1.length ∧
      (input → (s.fread maxLen).1 = (s'.fread maxLen).1) ∧
      SameInput input (s.fread maxLen).2 (s'.fread maxLen).2 := by
  obtain ⟨rest, _, _, _, _⟩ := s
  obtain ⟨rest', _, _, _, _⟩ := s'
  obtain ⟨hlen, hrest, rfl, rfl, rfl, rfl⟩ := h
  dsimp only at hlen hrest
  simp only [InStream.fread, List.length_take]
  refine ⟨by rw [hlen], fun hi => by rw [hrest hi], ?_, fun hi => ?_, rfl, rfl, rfl, rfl⟩
  · simp only [List.length_drop, hlen]
  · simp only [hrest hi]

theorem sameInput_fgetc (h : SameInput input s s') :
    s.fgetc.1.isSome = s'.fgetc.1.isSome ∧ (input → s.fgetc.1 = s'.fgetc.1) ∧
      SameInput input s.fgetc.2 s'.fgetc.2 := by
  obtain ⟨rest, _, calls, readFault, _⟩ := s
  obtain ⟨rest', _, _, _, _⟩ := s'
  obtain ⟨hlen, hrest, rfl, rfl, rfl, rfl⟩ := h
  dsimp only at hlen hrest
  simp only [InStream.fgetc]
  cases hfault : readFault calls with
  | some n => exact ⟨rfl, fun _ => rfl, hlen, hrest, rfl, rfl, rfl, rfl⟩
  | none =>
    rcases rest with _ | ⟨c, rest⟩ <;> rcases rest' with _ | ⟨c', rest'⟩
    · exact ⟨rfl, fun _ => rfl, hlen, hrest, rfl, rfl, rfl, rfl⟩
    · exact absurd hlen (by simp)
    · exact absurd hlen (by simp)
    · exact ⟨rfl, fun hi => congrArg some (List.cons.inj (hrest hi)).1, Nat.succ.inj hlen,
        fun hi => (List.cons.inj (hrest hi)).2, rfl, rfl, rfl, rfl⟩

theorem sameInput_ungetc (h : SameInput input s s') {c c' : UInt8} (hc : input → c = c') :
    (s.ungetc c).1 = (s'.ungetc c').1 ∧ SameInput input (s.ungetc c).2 (s'.ungetc c').2 := by
  obtain ⟨rest, _, calls, _, ungetFault⟩ := s
  obtain ⟨rest', _, _, _, _⟩ := s'
  obtain ⟨hlen, hrest, rfl, rfl, rfl, rfl⟩ := h
  dsimp only at hlen hrest
  simp only [InStream.ungetc]
  cases ungetFault calls with
  | true => exact ⟨rfl, hlen, hrest, rfl, rfl, rfl, rfl⟩
  | false =>
    refine ⟨rfl, congrArg (· + 1) hlen, fun hi => ?_, rfl, rfl, rfl, rfl⟩
    obtain rfl := hc hi
    exact congrArg (c :: ·) (hrest hi)

end Input

section Reading
variable {K : Known} {k k' : ℕ} {w w' : World}

/-- The results of two reads: one status, one length, and blocks of one number. -/
structure SameRead (k k' : ℕ) (r r' : ReadResult) : Prop where
  status : r.1 = r'.1
  block : ∃ o : Option (ℕ × ℕ),
    r.2 = o.map (Prod.map (k + ·) id) ∧ r'.2 = o.map (Prod.map (k' + ·) id)

theorem SameRead.none (k k' : ℕ) (rc : SaltStatus) : SameRead k k' (rc, none) (rc, none) :=
  ⟨rfl, Option.none, rfl, rfl⟩

theorem cliSecureReleaseBuffer_paired (j len : ℕ) : Same K k k'
    (cliSecureReleaseBuffer (k + j) len) (cliSecureReleaseBuffer (k' + j) len) :=
  (sodiumMunlock_paired j len).bind fun _ _ hrc => .ite (not_congr hrc)
    ((sodiumMemzero_paired j len).bind_eq fun _ => saltCliFreeImpl_paired j)
    (saltCliFreeImpl_paired j)

theorem failRead_paired (j maxLen : ℕ) (message : Bytes) (rc : SaltStatus) :
    Paired (Alike K k k') (SameRead k k') (failRead (k + j) maxLen message rc)
      (failRead (k' + j) maxLen message rc) :=
  (saltCliSetError_paired true message rc).bind_eq fun rc =>
    (cliSecureReleaseBuffer_paired j _).bind_eq fun _ => .ret (.none k k' rc)

theorem finishRead_paired (j n : ℕ) : Paired (Alike K k k') (SameRead k k')
    (finishRead (k + j) n) (finishRead (k' + j) n) := by
  have hsize (b c : Bytes) (h : store b n 0 = some c) : c.length = b.length := by
    unfold store at h
    split_ifs at h
    obtain rfl := Option.some.inj h
    exact List.length_set
  exact (editBlock_paired j hsize hsize fun _ => rfl).bind_eq
    fun _ => .ret ⟨rfl, some (j, n), rfl, rfl⟩

theorem saltCliFreadImpl_paired (hstdin : K.stdin) (hinput : K.exact → K.input) (j maxLen : ℕ) :
    Same K k k' (saltCliFreadImpl (k + j) maxLen) (saltCliFreadImpl (k' + j) maxLen) := by
  refine atomic_paired fun w w' h => ?_
  obtain ⟨hlen, hdata, hin⟩ := sameInput_fread (h.input hstdin) maxLen
  have hm := h.modifyBlocks j (Block.edit fun _ => put (blockBytes w (k + j)) (w.input.fread maxLen).1)
    (Block.edit fun _ => put (blockBytes w' (k' + j)) (w'.input.fread maxLen).1)
    fun _ _ _ _ => (h.bytes j).put fun he => hdata (hinput he)
  exact ⟨hlen, { hm with
    input := fun _ => hin, disposition := hm.disposition, saved := hm.saved }⟩

theorem saltCliFerrorImpl_paired (hstdin : K.stdin) :
    Same K k k' saltCliFerrorImpl saltCliFerrorImpl :=
  read_paired fun _ _ h => (h.input hstdin).errorFlag

theorem saltCliFgetcImpl_paired (hstdin : K.stdin) : Paired (Alike K k k')
    (fun c c' => c.isSome = c'.isSome ∧ (K.input → c = c')) saltCliFgetcImpl saltCliFgetcImpl := by
  refine atomic_paired fun w w' h => ?_
  obtain ⟨hsome, heq, hin⟩ := sameInput_fgetc (h.input hstdin)
  exact ⟨⟨hsome, heq⟩, { h with
    input := fun _ => hin, disposition := h.disposition, saved := h.saved }⟩

theorem saltCliUngetcImpl_paired (hstdin : K.stdin) {c c' : UInt8} (hc : K.input → c = c') :
    Same K k k' (saltCliUngetcImpl c) (saltCliUngetcImpl c') := by
  refine atomic_paired fun w w' h => ?_
  obtain ⟨hok, hin⟩ := sameInput_ungetc (h.input hstdin) hc
  exact ⟨hok, { h with
    input := fun _ => hin, disposition := h.disposition, saved := h.saved }⟩

theorem probeRead_paired (hstdin : K.stdin) (j maxLen : ℕ) : Paired (Alike K k k')
    (SameRead k k') (probeRead (k + j) maxLen) (probeRead (k' + j) maxLen) := by
  refine (saltCliFgetcImpl_paired hstdin).bind ?_
  rintro (_ | c) (_ | c') ⟨hsome, heq⟩
  · exact (saltCliFerrorImpl_paired hstdin).bind_eq fun _ =>
      .ite .rfl (failRead_paired _ _ _ _) (finishRead_paired _ _)
  · exact Bool.noConfusion hsome
  · exact Bool.noConfusion hsome
  · exact (saltCliUngetcImpl_paired hstdin fun hi => Option.some.inj (heq hi)).bind_eq fun _ =>
      .ite .rfl (failRead_paired _ _ _ _) (failRead_paired _ _ _ _)

theorem fillBuffer_paired (hstdin : K.stdin) (hinput : K.exact → K.input) (hflag : K.flag)
    (j maxLen : ℕ) : Paired (Alike K k k') (SameRead k k') (fillBuffer (k + j) maxLen)
      (fillBuffer (k' + j) maxLen) := by
  refine (sodiumMlock_paired _).bind_eq fun _ => ?_
  refine (saltCliFreadImpl_paired hstdin hinput j maxLen).bind_eq fun n => ?_
  refine (saltCliCheckInterrupted_paired hflag).bind_eq fun _ => .ite .rfl ?_ ?_
  · exact (cliSecureReleaseBuffer_paired j _).bind_eq fun _ => .ret (.none k k' _)
  · exact (saltCliFerrorImpl_paired hstdin).bind_eq fun _ => .ite .rfl (failRead_paired _ _ _ _)
      (.ite .rfl (probeRead_paired hstdin _ _) (finishRead_paired _ _))

theorem cliInputReadStreamLimited_paired (hstdin : K.stdin) (hinput : K.exact → K.input)
    (hflag : K.flag) (maxLen : ℕ) : Paired (Alike K k k') (SameRead k k')
      (cliInputReadStreamLimited maxLen) (cliInputReadStreamLimited maxLen) := by
  refine (read_paired (V := Eq) fun _ _ h => h.env.width).bind_eq fun _ => .ite .rfl ?_ ?_
  · exact (saltCliSetError_paired _ _ _).bind_eq fun rc => .ret (.none k k' rc)
  · refine (saltCliCheckInterrupted_paired hflag).bind_eq fun _ =>
      .ite .rfl (.ret (.none k k' _)) ((saltCliAllocImpl_paired _).bind ?_)
    rintro _ _ ⟨_ | j, rfl, rfl⟩
    · exact (saltCliSetError_paired _ _ _).bind_eq fun rc => .ret (.none k k' rc)
    · exact fillBuffer_paired hstdin hinput hflag j maxLen

end Reading

/-- Like worlds with this state, in which block `j` holds these bytes. -/
structure Holding (K : Known) (k k' j : ℕ) (b b' : Bytes) (s : CliState) (w w' : World) : Prop where
  alike : Alike K k k' w w'
  state : w.state = moved k s
  state' : w'.state = moved k' s
  inside : k + j < w.heap.length
  block : blockBytes w (k + j) = b
  block' : blockBytes w' (k' + j) = b'

section Blocks
variable {K : Known} {k k' j : ℕ} {w w' : World} {b b' c c' : Bytes} {s : CliState}

theorem modifyState_jointly (h : Alike K k k' w w') {f f' : CliState → CliState} (t : CliState)
    (hf : f w.state = moved k t) (hf' : f' w'.state = moved k' t) :
    Jointly (modifyState f) (modifyState f') w w' fun _ _ u u' =>
      Alike K k k' u u' ∧ u.state = moved k t ∧ u'.state = moved k' t := by
  have ha := h.withState t
  rw [← hf, ← hf'] at ha
  exact ⟨ha, hf, hf'⟩

theorem modifyState_holding (h : Holding K k k' j b b' s w w') {f f' : CliState → CliState}
    (t : CliState) (hf : f (moved k s) = moved k t) (hf' : f' (moved k' s) = moved k' t) :
    Jointly (modifyState f) (modifyState f') w w' fun _ _ u u' => Holding K k k' j b b' t u u' := by
  rw [← h.state] at hf
  rw [← h.state'] at hf'
  obtain ⟨ha, ht, ht'⟩ := modifyState_jointly h.alike t hf hf'
  exact ⟨ha, ht, ht', h.inside, h.block, h.block'⟩

theorem sodiumMlock_holding (h : Holding K k k' j b b' s w w') (len : ℕ) :
    Jointly (sodiumMlock len) (sodiumMlock len) w w' fun _ _ u u' => Holding K k k' j b b' s u u' :=
  ⟨(sodiumMlock_paired len _ _ h.alike).2, h.state, h.state', h.inside, h.block, h.block'⟩

theorem blockBytes_edit {w : World} {id : ℕ} (h : id < w.heap.length) (c : Bytes) :
    blockBytes (setBlockBytes id c w) id = c := by
  change bytesAt (w.heap.modify id (Block.edit fun _ => c)) id = c
  rw [bytesAt_modify, if_pos rfl, List.getElem?_eq_getElem h]
  rfl

theorem editBlock_holding (h : Holding K k k' j b b' s w w') {f f' : Bytes → Option Bytes}
    (hf : f b = some c) (hf' : f' b' = some c') (hfits : Fits K.exact c c') :
    Jointly (editBlock (k + j) f) (editBlock (k' + j) f') w w' fun _ _ u u' =>
      Holding K k k' j c c' s u u' := by
  obtain ⟨n, hn, hn'⟩ := h.alike.size
  have hinside := h.inside
  have hinside' : k' + j < w'.heap.length := by omega
  have hrun : (editBlock (k + j) f w).final = setBlockBytes (k + j) c w := by
    simp only [editBlock, update_final, h.block, hf]
  have hrun' : (editBlock (k' + j) f' w').final = setBlockBytes (k' + j) c' w' := by
    simp only [editBlock, update_final, h.block', hf']
  unfold Jointly
  rw [hrun, hrun']
  refine ⟨h.alike.modifyBlocks j _ _ fun _ _ _ _ => hfits, h.state, h.state', ?_,
    blockBytes_edit h.inside c, blockBytes_edit hinside' c'⟩
  change k + j < (w.heap.modify (k + j) _).length
  rw [List.length_modify]
  exact h.inside

theorem readByte_holding (h : Holding K k k' j b b' s w w') {i : ℕ} {c c' : UInt8}
    (hc : b[i]? = some c) (hc' : b'[i]? = some c') :
    Jointly (readByte (k + j) i) (readByte (k' + j) i) w w' fun a a' u u' =>
      a = c ∧ a' = c' ∧ Holding K k k' j b b' s u u' := by
  unfold Jointly readByte
  simp only [step_value, step_final, h.block, h.block', hc, hc', true_and]
  exact h

theorem saltCliAllocImpl_holding (h : Alike K k k' w w') (hs : w.state = moved k s)
    (hs' : w'.state = moved k' s) (size : ℕ) :
    Jointly (saltCliAllocImpl size) (saltCliAllocImpl size) w w' fun r r' u u' =>
      (r = none ∧ r' = none ∧ Alike K k k' u u') ∨
      ∃ j b b', r = some (k + j) ∧ r' = some (k' + j) ∧ b.length = size ∧ b'.length = size ∧
        Holding K k k' j b b' s u u' := by
  have hends (w : World) : Ends (saltCliAllocImpl size) w fun r u =>
      u.state = w.state ∧ ∀ id ∈ r, id < u.heap.length ∧ (blockBytes u id).length = size := by
    unfold saltCliAllocImpl atomic Ends
    simp only [step_value, step_final]
    cases w.deliver.env.alloc w.deliver.clock with
    | none => exact ⟨rfl, fun id hid => absurd hid (by simp)⟩
    | some content =>
      refine ⟨rfl, fun id hid => ?_⟩
      obtain rfl := Option.some.inj hid
      refine ⟨by simp [World.tick, record], ?_⟩
      change (bytesAt (w.heap ++ [⟨size, fresh content size, []⟩]) w.heap.length).length = size
      rw [bytesAt_append, fresh_length]
  refine ((saltCliAllocImpl_paired size w w' h).and_ends (hends w) (hends w')).mono ?_
  rintro _ _ u u' ⟨⟨⟨_ | j, rfl, rfl⟩, ha⟩, ⟨hu, hb⟩, ⟨hu', hb'⟩⟩
  · exact .inl ⟨rfl, rfl, ha⟩
  · obtain ⟨hlt, hlen⟩ := hb _ rfl
    exact .inr ⟨j, _, _, rfl, rfl, hlen, (hb' _ rfl).2, ha, hu.trans hs, hu'.trans hs', hlt, rfl,
      rfl⟩

end Blocks

def SameText (a b : Bytes) : Prop :=
  ∃ text tail tail', 0 ∉ text ∧ a = text ++ 0 :: tail ∧ b = text ++ 0 :: tail'

def keySourceOf (w : World) : Bytes := w.state.keyOption.elim [] (refMemory w)

/-- What the key option points to, as far as the key is read. -/
structure SameKey (exact : Prop) (w w' : World) : Prop where
  source : keySourceOf w = keySourceOf w' ∨ SameText (keySourceOf w) (keySourceOf w')
  all : exact → keySourceOf w = keySourceOf w'

theorem memchr_found {value : Bytes} {n i : ℕ} (h : memchr value 0 n = some (some i)) :
    ∃ text rest, 0 ∉ text ∧ value = text ++ 0 :: rest ∧ text.length = i := by
  induction value generalizing n i with
  | nil => cases n <;> simp [memchr] at h
  | cons x value ih =>
    cases n with
    | zero => simp [memchr] at h
    | succ n =>
      rw [memchr] at h
      split_ifs at h with hx
      · simp only [Option.some.injEq] at h
        exact ⟨[], value, by simp, by rw [hx, List.nil_append], h⟩
      · obtain ⟨r, hr, hi⟩ := Option.map_eq_some_iff.1 h
        obtain ⟨r', rfl, hr'⟩ := Option.map_eq_some_iff.1 hi
        obtain ⟨text, rest, htext, hvalue, hlen⟩ := ih hr
        refine ⟨x :: text, rest, ?_, by rw [hvalue, List.cons_append], by rw [List.length_cons, hlen, hr']⟩
        rw [List.mem_cons, not_or]
        exact ⟨Ne.symm hx, htext⟩

theorem text_of_boundedStrlen {value : Bytes} {n len : ℕ} (h : cliBoundedStrlen value n = some len)
    (hlt : len < n) : ∃ text rest, 0 ∉ text ∧ value = text ++ 0 :: rest ∧ text.length = len := by
  obtain ⟨nul, hnul, hlen⟩ := Option.map_eq_some_iff.1 h
  cases nul with
  | none => exact absurd hlen (by simp only [Option.getD_none]; omega)
  | some i =>
    obtain rfl : i = len := hlen
    exact memchr_found hnul

theorem SameKey.strlen {exact : Prop} {w w' : World} (h : SameKey exact w w') (n : ℕ) :
    cliBoundedStrlen (keySourceOf w) n = cliBoundedStrlen (keySourceOf w') n := by
  rcases h.source with heq | ⟨text, tail, tail', htext, hw, hw'⟩
  · rw [heq]
  · rw [hw, hw', cliBoundedStrlen_terminated htext, cliBoundedStrlen_terminated htext]

theorem SameKey.text {exact : Prop} {w w' : World} (h : SameKey exact w w') {n len : ℕ}
    (hlen : cliBoundedStrlen (keySourceOf w) n = some len) (hlt : len < n) :
    ∃ text tail tail', 0 ∉ text ∧ text.length = len ∧ keySourceOf w = text ++ 0 :: tail ∧
      keySourceOf w' = text ++ 0 :: tail' := by
  obtain ⟨text, rest, htext, hw, hlength⟩ := text_of_boundedStrlen hlen hlt
  rcases h.source with heq | ⟨text', tail, tail', htext', hv, hv'⟩
  · exact ⟨text, rest, rest, htext, hlength, hw, heq ▸ hw⟩
  · refine ⟨text', tail, tail', htext', ?_, hv, hv'⟩
    rw [hv, cliBoundedStrlen_terminated htext'] at hlen
    have := Option.some.inj hlen
    omega

section Key
variable {K : Known} {k k' : ℕ} {w w' : World}

def SameCopy (w w' : World) : Prop :=
  w.state.trimmedKeyInput.map (blockBytes w) = w'.state.trimmedKeyInput.map (blockBytes w')

theorem saltCliReportStreamStatus_jointly (h : Alike K k k' w w') (useError : Bool) {rc : SaltStatus}
    (hrc : rc ≠ .ok) (text : Bytes) {P : World → World → Prop} :
    Jointly (saltCliReportStreamStatus .err useError rc text)
      (saltCliReportStreamStatus .err useError rc text) w w' fun a a' u u' =>
        a = a' ∧ Alike K k k' u u' ∧ (a = .ok → P u u') :=
  ⟨(saltCliReportStreamStatus_paired .err useError rc text w w' h).1,
    (saltCliReportStreamStatus_paired .err useError rc text w w' h).2,
    fun hok => absurd hok (saltCliReportStreamStatus_ne_ok w useError hrc text)⟩

theorem saltCliReportStateError_jointly (h : Alike K k k' w w') {rc : SaltStatus} (hrc : rc ≠ .ok)
    {P : World → World → Prop} :
    Jointly (saltCliReportStateError rc) (saltCliReportStateError rc) w w' fun a a' u u' =>
      a = a' ∧ Alike K k k' u u' ∧ (a = .ok → P u u') :=
  ⟨(saltCliReportStateError_paired rc w w' h).1, (saltCliReportStateError_paired rc w w' h).2,
    fun hok => absurd hok (saltCliReportStateError_ne_ok w hrc)⟩

theorem undefinedBehaviour_paired : Same K k k' undefinedBehaviour undefinedBehaviour :=
  ghost_paired fun _ _ h => { h with disposition := h.disposition, saved := h.saved }

theorem copyKeyOption_jointly (h : Alike K k k' w w') (hkey : SameKey K.exact w w') :
    Jointly copyKeyOption copyKeyOption w w' fun rc rc' u u' =>
      rc = rc' ∧ Alike K k k' u u' ∧ (rc = .ok → SameCopy u u') := by
  refine Jointly.bind_read rfl rfl ?_
  refine Jointly.bind_read (a := keySourceOf w) (b := keySourceOf w') rfl rfl ?_
  have hstrlen := hkey.strlen (saltMaxKeyInputLen + 1)
  cases hlen : cliBoundedStrlen (keySourceOf w) (saltMaxKeyInputLen + 1) with
  | none =>
    rw [hlen] at hstrlen
    simp only [← hstrlen]
    exact (undefinedBehaviour_paired w w' h).bind fun _ _ _ _ hu =>
      .ret ⟨rfl, hu.2, fun hok => SaltStatus.noConfusion hok⟩
  | some len =>
    rw [hlen] at hstrlen
    simp only [← hstrlen]
    refine .ite .rfl (fun _ => saltCliReportStreamStatus_jointly h true (by decide) _) fun hshort => ?_
    obtain ⟨text, tail, tail', htext, rfl, hsource, hsource'⟩ := hkey.text hlen (by omega)
    obtain ⟨s, hs, hs'⟩ := h.state
    refine (saltCliAllocImpl_holding h hs hs' _).bind ?_
    rintro _ _ u u' (⟨rfl, rfl, hu⟩ | ⟨j, b, b', rfl, rfl, hb, hb', hu⟩)
    · exact saltCliReportStreamStatus_jointly hu true (by decide) _
    rw [hsource, hsource']
    obtain ⟨rest, htrim, -⟩ := trim_buffer htext []
    rw [List.length_append, List.length_singleton] at htrim
    refine (modifyState_holding hu { s with
      trimmedKeyInput := some j, trimmedKeyInputCap := text.length + 1 } rfl rfl).bind
      fun _ _ u₁ u₁' h₁ => ?_
    refine (sodiumMlock_holding h₁ _).bind fun _ _ u₂ u₂' h₂ => ?_
    refine (editBlock_holding h₂ (copyString_eq text tail hb) (copyString_eq text tail' hb')
      (.refl _ _)).bind fun _ _ u₃ u₃' h₃ => ?_
    refine (editBlock_holding h₃ htrim htrim (.refl _ _)).bind fun _ _ u₄ u₄' h₄ => .ret ?_
    refine ⟨rfl, h₄.alike, fun _ => ?_⟩
    rw [SameCopy, h₄.state, h₄.state']
    exact congrArg some (h₄.block.trans h₄.block'.symm)

theorem keySourceOf_exact (h : Alike K k k' w w') (he : K.exact) : keySourceOf w = keySourceOf w' := by
  obtain ⟨s, hs, hs'⟩ := h.state
  rw [keySourceOf, keySourceOf, hs, hs']
  simp only [moved]
  rcases s.keyOption with _ | _ | id
  · rfl
  · rfl
  · exact (h.bytes id).bytes he

theorem holding_of_filled {u u' : World} {maxLen j len : ℕ} {r r' : ReadResult}
    (ha : Alike K k k' u u') (hrest : w.input.rest = w'.input.rest)
    (hr : r.2 = some (k + j, len)) (hr' : r'.2 = some (k' + j, len))
    (hu : Answered w (view w) w.heap maxLen r u) (hu' : Answered w' (view w') w'.heap maxLen r' u') :
    ∃ tail tail' s, len = w.input.rest.length ∧
      Holding K k k' j (w.input.rest ++ 0 :: tail) (w.input.rest ++ 0 :: tail') s u u' := by
  rcases hu with ⟨tail, _, rfl, -, ht⟩ | hu
  · rcases hu' with ⟨tail', _, rfl, -, ht'⟩ | hu'
    · obtain ⟨s, hs, hs'⟩ := ha.state
      simp only [Option.some.injEq, Prod.mk.injEq] at hr hr'
      refine ⟨tail, tail', s, hr.2.symm, ha, hs, hs', ?_, ?_, ?_⟩
      · rw [ht.heap, ← hr.1]
        simp
      · rw [ht.blockBytes, ← hr.1]
        exact bytesAt_append _ _
      · rw [ht'.blockBytes, ← hr'.1, hrest]
        exact bytesAt_append _ _
    · rw [hu'.2.1] at hr'
      exact absurd hr' (by simp)
  · rw [hu.2.1] at hr
    exact absurd hr (by simp)

theorem loadKeyFromStdin_jointly (h : Alike K k k' w w') (hstdin : K.stdin) (hin : K.input)
    (hflag : K.flag) : Jointly loadKeyFromStdin loadKeyFromStdin w w' fun rc rc' u u' =>
      rc = rc' ∧ Alike K k k' u u' ∧ (rc = .ok → SameKey K.exact u u') := by
  have hmax (W : SizeWidth) : saltMaxKeyInputLen ≤ sizeMax W - 1 := by
    have := modulus_large W
    rw [sizeMax, show saltMaxKeyInputLen = 16384 from rfl]
    omega
  have hrest := (h.input hstdin).rest hin
  have hread := cliInputReadStreamLimited_paired hstdin (fun _ => hin) hflag saltMaxKeyInputLen w w' h
  refine (hread.and_ends (cliInputReadStreamLimited_answered (.refl w) (hmax _))
    (cliInputReadStreamLimited_answered (.refl w') (hmax _))).bind ?_
  rintro ⟨rc, result⟩ ⟨rc', result'⟩ u u' ⟨⟨⟨hrc, o, ho, ho'⟩, hu⟩, hend, hend'⟩
  dsimp only at hrc ho ho'
  subst hrc
  cases o with
  | none =>
    subst ho ho'
    have hne : rc ≠ .ok := by
      rcases hend with ⟨_, _, hr, -⟩ | hend
      · exact absurd hr (by simp)
      · exact hend.1
    exact saltCliReportStateError_jointly hu hne
  | some r =>
    obtain ⟨j, len⟩ := r
    subst ho ho'
    obtain ⟨tail, tail', s, rfl, hhold⟩ := holding_of_filled hu hrest rfl rfl hend hend'
    obtain ⟨rest, htrim, hlen⟩ := trim_filled w.input.rest tail
    obtain ⟨rest', htrim', hlen'⟩ := trim_filled w.input.rest tail'
    obtain ⟨c, hc, hzero⟩ := head_zero_iff (trim_noNul (cstr_noNul w.input.rest)) rest
    obtain ⟨c', hc', hzero'⟩ := head_zero_iff (trim_noNul (cstr_noNul w.input.rest)) rest'
    have hfits : Fits K.exact (trim (cstr w.input.rest) ++ 0 :: rest)
        (trim (cstr w.input.rest) ++ 0 :: rest') := by
      have hblocks : Fits K.exact (w.input.rest ++ 0 :: tail) (w.input.rest ++ 0 :: tail') := by
        rw [← hhold.block, ← hhold.block']
        exact hu.bytes j
      refine ⟨hlen.trans (hblocks.length.trans hlen'.symm), fun he => ?_⟩
      rw [hblocks.bytes he] at htrim
      exact Option.some.inj (htrim.symm.trans htrim')
    refine (modifyState_holding hhold { s with stdinKey := some j } rfl rfl).bind
      fun _ _ u₁ u₁' h₁ => ?_
    refine (editBlock_holding h₁ htrim htrim' hfits).bind fun _ _ u₂ u₂' h₂ => ?_
    refine (readByte_holding h₂ hc hc').bind ?_
    rintro _ _ u₃ u₃' ⟨rfl, rfl, h₃⟩
    refine .ite (hzero.trans hzero'.symm) (fun _ => ?_) fun _ => ?_
    · exact saltCliReportStreamStatus_jointly h₃.alike true (by decide) _
    · refine (modifyState_holding h₃ { s with stdinKey := some j, keyOption := some (.block j) }
        rfl rfl).bind fun _ _ u₄ u₄' h₄ => .ret ⟨rfl, h₄.alike, fun _ => ?_⟩
      have hsource : keySourceOf u₄ = trim (cstr w.input.rest) ++ 0 :: rest := by
        rw [keySourceOf, h₄.state]
        exact h₄.block
      have hsource' : keySourceOf u₄' = trim (cstr w.input.rest) ++ 0 :: rest' := by
        rw [keySourceOf, h₄.state']
        exact h₄.block'
      exact ⟨.inr ⟨_, rest, rest', trim_noNul (cstr_noNul _), hsource, hsource'⟩,
        keySourceOf_exact h₄.alike⟩

theorem parseKeyOfState_jointly (h : Alike K k k' w w') (hcopy : SameCopy w w') :
    Jointly parseKeyOfState parseKeyOfState w w' fun rc rc' u u' => rc = rc' ∧ Alike K k k' u u' := by
  obtain ⟨s, hs, hs'⟩ := h.state
  have hparse : parseTrimmedKey w = parseTrimmedKey w' := by
    unfold parseTrimmedKey
    rw [hcopy, hs, hs']
    rfl
  unfold Jointly parseKeyOfState Traced.step
  dsimp only
  rw [← hparse]
  cases parseTrimmedKey w with
  | none => exact ⟨rfl, { h with disposition := h.disposition, saved := h.saved }⟩
  | some r =>
    have ha := h.withState (withParsed r.2 s)
    have hw : moved k (withParsed r.2 s) = withParsed r.2 w.state := by rw [hs]; rfl
    have hw' : moved k' (withParsed r.2 s) = withParsed r.2 w'.state := by rw [hs']; rfl
    rw [hw, hw'] at ha
    exact ⟨rfl, ha⟩

theorem keyFromStdinStage_jointly (h : Alike K k k' w w') (hkey : SameKey K.exact w w')
    (hstdin : w.state.keyFromStdin = true → K.stdin ∧ K.input) (hflag : K.flag) :
    Jointly keyFromStdinStage keyFromStdinStage w w' fun rc rc' u u' =>
      rc = rc' ∧ Alike K k k' u u' ∧ (rc = .ok → SameKey K.exact u u') := by
  obtain ⟨s, hs, hs'⟩ := h.state
  have hsame : w.state.keyFromStdin = w'.state.keyFromStdin := by
    rw [hs, hs']
    rfl
  refine Jointly.bind_read rfl rfl ?_
  refine .ite (by rw [hsame]) (fun hk => ?_) fun _ => .ret ⟨rfl, h, fun _ => hkey⟩
  exact loadKeyFromStdin_jointly h (hstdin hk).1 (hstdin hk).2 hflag

theorem saltCliInputLoadKeyInput_jointly (h : Alike K k k' w w') (hkey : SameKey K.exact w w')
    (hstdin : w.state.keyFromStdin = true → K.stdin ∧ K.input) (hflag : K.flag) :
    Jointly saltCliInputLoadKeyInput saltCliInputLoadKeyInput w w' fun rc rc' u u' =>
      rc = rc' ∧ Alike K k k' u u' := by
  refine (keyFromStdinStage_jointly h hkey hstdin hflag).bind ?_
  rintro rc _ u u' ⟨rfl, hu, hkey₁⟩
  refine .ite .rfl (fun _ => .ret ⟨rfl, hu⟩) fun hrc => ?_
  refine (copyKeyOption_jointly hu (hkey₁ (not_not.1 hrc))).bind ?_
  rintro rc₁ _ u₁ u₁' ⟨rfl, hu₁, hcopy⟩
  refine .ite .rfl (fun _ => .ret ⟨rfl, hu₁⟩) fun hrc₁ => ?_
  refine (parseKeyOfState_jointly hu₁ (hcopy (not_not.1 hrc₁))).bind ?_
  rintro rc₂ _ u₂ u₂' ⟨rfl, hu₂⟩
  exact .ite .rfl (fun _ => saltCliReportStateError_paired _ _ _ hu₂)
    fun _ => reportIfInterrupted_paired hflag _ _ hu₂

end Key

section Arg
variable {exact : Prop} {a b : Bytes}

theorem sameArg_refl (exact : Prop) (a : Bytes) : SameArg exact a a := ⟨.refl _ _, rfl⟩

theorem sameArg_all (exact : Prop) (l : List Bytes) : List.Forall₂ (SameArg exact) l l := by
  induction l with
  | nil => exact .nil
  | cons a l ih => exact .cons (sameArg_refl exact a) ih

theorem arg_memory (a : Bytes) : ∃ rest, a ++ [0] = cstr a ++ 0 :: rest := by
  by_cases h : 0 ∈ a
  · obtain ⟨rest, hrest⟩ := exists_cstr_append h
    refine ⟨rest ++ [0], ?_⟩
    nth_rewrite 1 [hrest]
    simp
  · exact ⟨[], by rw [cstr_of_noNul h]⟩

theorem sameArg_wiped (h : SameArg exact a b) (len : ℕ) :
    SameArg exact (List.replicate (min len a.length) 0 ++ a.drop len)
      (List.replicate (min len b.length) 0 ++ b.drop len) := by
  refine ⟨⟨?_, fun he => by rw [h.fits.bytes he]⟩, ?_⟩
  · simp only [List.length_append, List.length_replicate, List.length_drop, h.fits.length]
  · rw [← h.fits.length]
    cases hn : min len a.length with
    | zero =>
      rcases Nat.min_eq_zero_iff.1 hn with rfl | hzero
      · exact h.length
      · have ha := List.length_eq_zero_iff.1 hzero
        have hb := List.length_eq_zero_iff.1 (h.fits.length.symm.trans hzero)
        rw [ha, hb]
    | succ n => rfl

theorem sameArg_getD {l l' : List Bytes} (h : List.Forall₂ (SameArg exact) l l') (i : ℕ) :
    SameArg exact (l.getD i []) (l'.getD i []) := by
  induction h generalizing i with
  | nil => exact sameArg_refl _ _
  | cons hhead _ ih =>
    cases i with
    | zero => exact hhead
    | succ i => exact ih i

theorem sameArg_scrubbed {l l' : List Bytes} (h : List.Forall₂ (SameArg exact) l l') (i len : ℕ) :
    List.Forall₂ (SameArg exact) (scrubbed i len l) (scrubbed i len l') := by
  induction h generalizing i with
  | nil => cases i <;> exact .nil
  | cons hhead htail ih =>
    cases i with
    | zero => exact .cons (sameArg_wiped hhead len) htail
    | succ i => exact .cons hhead (ih i)

end Arg

section Plaintext
variable {K : Known} {k k' : ℕ} {w w' : World}

theorem scrubPositional_paired (i len : ℕ) :
    Same K k k' (scrubPositional i len) (scrubPositional i len) :=
  atomic_paired fun _ _ h => ⟨rfl, { h with
    positionals := sameArg_scrubbed h.positionals i len
    disposition := h.disposition
    saved := h.saved }⟩

theorem saltCliLoadPlaintextFromArgv_paired (i : ℕ) :
    Same K k k' (saltCliLoadPlaintextFromArgv i) (saltCliLoadPlaintextFromArgv i) := by
  intro w w' h
  have harg := sameArg_getD h.positionals i
  obtain ⟨rest, hrest⟩ := arg_memory (w.positionals.getD i [])
  obtain ⟨rest', hrest'⟩ := arg_memory (w'.positionals.getD i [])
  have hnul := cstr_noNul (w.positionals.getD i [])
  have hnul' := cstr_noNul (w'.positionals.getD i [])
  have hfits : Fits K.exact (cstr (w.positionals.getD i []) ++ [0])
      (cstr (w'.positionals.getD i []) ++ [0]) :=
    ⟨by simp only [List.length_append, harg.length], fun he => by rw [harg.fits.bytes he]⟩
  have hlen := harg.length
  generalize cstr (w.positionals.getD i []) = p at *
  generalize cstr (w'.positionals.getD i []) = p' at *
  refine Jointly.bind_read hrest hrest' ?_
  refine Jointly.bind_read h.env.width rfl ?_
  rw [cliBoundedStrlen_terminated hnul, cliBoundedStrlen_terminated hnul', ← hlen]
  refine .ite .rfl (fun _ => saltCliReportStreamStatus_paired _ _ _ _ _ _ h) fun hshort => ?_
  refine .ite .rfl (fun _ => saltCliReportStreamStatus_paired _ _ _ _ _ _ h) fun _ => ?_
  have hmin : min p.length (saltGithubSecretMaxValueLen + 1) = p.length := by omega
  rw [hmin]
  obtain ⟨s, hs, hs'⟩ := h.state
  refine (modifyState_jointly h { s with argvPlaintextCap := p.length + 1 } (by rw [hs]; rfl)
    (by rw [hs']; rfl)).bind ?_
  rintro _ _ u u' ⟨hu, hs₁, hs₁'⟩
  refine (saltCliAllocImpl_holding hu hs₁ hs₁' _).bind ?_
  rintro _ _ u₁ u₁' (⟨rfl, rfl, hu₁⟩ | ⟨j, b, b', rfl, rfl, hb, hb', h₁⟩)
  · exact saltCliReportStreamStatus_paired _ _ _ _ _ _ hu₁
  have hcopy := copyString_eq p rest hb
  have hcopy' := copyString_eq p' rest' (hb'.trans (congrArg (· + 1) hlen))
  rw [← hlen] at hcopy'
  refine (modifyState_holding h₁ { s with
    argvPlaintextCap := p.length + 1, argvPlaintextCopy := some j } rfl rfl).bind
    fun _ _ u₂ u₂' h₂ => ?_
  refine (sodiumMlock_holding h₂ _).bind fun _ _ u₃ u₃' h₃ => ?_
  refine (editBlock_holding h₃ hcopy hcopy' hfits).bind fun _ _ u₄ u₄' h₄ => ?_
  refine Jointly.bind (scrubPositional_paired i _ _ _ h₄.alike) fun _ _ u₅ u₅' h₅ => ?_
  exact ((modifyState_paired (g := fun s => { s with message := some j, messageLen := p.length })
    (fun _ => rfl) fun _ => rfl).bind_eq fun _ => .ret rfl) _ _ h₅.2

theorem loadPlaintextFromStdin_paired (hstdin : K.stdin) (hinput : K.exact → K.input)
    (hflag : K.flag) : Same K k k' loadPlaintextFromStdin loadPlaintextFromStdin := by
  refine (cliInputReadStreamLimited_paired hstdin hinput hflag _).bind ?_
  rintro ⟨rc, result⟩ ⟨rc', result'⟩ ⟨hrc, o, ho, ho'⟩
  dsimp only at hrc ho ho'
  subst hrc ho ho'
  cases o with
  | none => exact saltCliReportStateError_paired rc
  | some r =>
    exact (modifyState_paired (g := fun s => { s with
      stdinPlaintext := some r.1, message := some r.1, messageLen := r.2 }) (fun _ => rfl)
      fun _ => rfl).bind_eq fun _ => .ret rfl

theorem loadPlaintextSource_jointly (h : Alike K k k' w w')
    (hstdin : w.state.plaintextFromStdin = true → K.stdin) (hinput : K.exact → K.input)
    (hflag : K.flag) : Jointly loadPlaintextSource loadPlaintextSource w w' fun rc rc' u u' =>
      rc = rc' ∧ Alike K k k' u u' := by
  obtain ⟨s, hs, hs'⟩ := h.state
  have hsource : w.state.plaintextFromStdin = w'.state.plaintextFromStdin := by
    rw [hs, hs']
    rfl
  have harg : w.state.plaintextArg = w'.state.plaintextArg := by
    rw [hs, hs']
    rfl
  refine Jointly.bind_read rfl rfl ?_
  refine .ite (by rw [hsource]) (fun hk => ?_) fun _ => ?_
  · exact loadPlaintextFromStdin_paired (hstdin hk) hinput hflag _ _ h
  · rw [harg]
    exact saltCliLoadPlaintextFromArgv_paired _ _ _ h

theorem saltCliInputLoadPlaintext_jointly (h : Alike K k k' w w')
    (hstdin : w.state.plaintextFromStdin = true → K.stdin) (hinput : K.exact → K.input)
    (hflag : K.flag) : Jointly saltCliInputLoadPlaintext saltCliInputLoadPlaintext w w'
      fun rc rc' u u' => rc = rc' ∧ Alike K k k' u u' := by
  refine (loadPlaintextSource_jointly h hstdin hinput hflag).bind ?_
  rintro rc _ u u' ⟨rfl, hu⟩
  refine .ite .rfl (fun _ => .ret ⟨rfl, hu⟩) fun _ => ?_
  refine (reportIfInterrupted_paired hflag _ _ hu).bind ?_
  rintro rc₁ _ u₁ u₁' ⟨rfl, hu₁⟩
  refine .ite .rfl (fun _ => .ret ⟨rfl, hu₁⟩) fun _ => ?_
  refine (getState_paired _ _ hu₁).bind ?_
  rintro _ _ u₂ u₂' ⟨⟨s, rfl, rfl⟩, hu₂⟩
  exact .ite .rfl (fun _ => saltCliReportStreamStatus_paired _ _ _ _ _ _ hu₂)
    fun _ => .ret ⟨rfl, hu₂⟩

end Plaintext

section Cleanup
variable {K : Known} {k k' : ℕ}

theorem saltCliSecureUnlockRegion_paired (j len : ℕ) : Same K k k'
    (saltCliSecureUnlockRegion (k + j) len) (saltCliSecureUnlockRegion (k' + j) len) :=
  .ite .rfl (.ret rfl) ((sodiumMunlock_paired j len).bind fun _ _ hrc =>
    .ite (not_congr hrc) (sodiumMemzero_paired j len) (.ret rfl))

theorem saltCliSecureFreeRegion_paired (o : Option ℕ) (len : ℕ) : Same K k k'
    (saltCliSecureFreeRegion (o.map (k + ·)) len) (saltCliSecureFreeRegion (o.map (k' + ·)) len) := by
  cases o with
  | none => exact .ret rfl
  | some j => exact (saltCliSecureUnlockRegion_paired j len).bind_eq fun _ => saltCliFreeImpl_paired j

theorem wipeFixedBuffer_moved (buffer : FixedBuffer) (n : ℕ) (s : CliState) :
    wipeFixedBuffer buffer (moved n s) = moved n (wipeFixedBuffer buffer s) := by
  cases buffer <;> rfl

theorem unlockFixedBuffer_paired (buffer : FixedBuffer) :
    Same K k k' (unlockFixedBuffer buffer) (unlockFixedBuffer buffer) := by
  refine Paired.bind (V := fun r r' => r = 0 ↔ r' = 0) (atomic_paired fun w w' h => ?_)
    fun _ _ hrc => .ite (not_congr hrc)
      (modifyState_paired (wipeFixedBuffer_moved buffer k) (wipeFixedBuffer_moved buffer k')) (.ret rfl)
  obtain ⟨s, hs, hs'⟩ := h.state
  have ha := h.withState (wipeFixedBuffer buffer s)
  rw [← wipeFixedBuffer_moved, ← wipeFixedBuffer_moved, ← hs, ← hs'] at ha
  exact ⟨by rw [h.env.munlock, h.clock], ha⟩

theorem unlockFixedBuffers_paired (locked : Bool) :
    Same K k k' (unlockFixedBuffers locked) (unlockFixedBuffers locked) :=
  .ite .rfl ((unlockFixedBuffer_paired _).bind_eq fun _ => (unlockFixedBuffer_paired _).bind_eq
    fun _ => unlockFixedBuffer_paired _) (.ret rfl)

theorem saltCliStateCleanup_paired : Same K k k' saltCliStateCleanup saltCliStateCleanup := by
  refine getState_paired.bind ?_
  rintro _ _ ⟨s, rfl, rfl⟩
  refine (saltCliSecureFreeRegion_paired s.output s.outputCap).bind_eq fun _ => ?_
  refine (saltCliSecureFreeRegion_paired s.stdinKey _).bind_eq fun _ => ?_
  refine (saltCliSecureFreeRegion_paired s.stdinPlaintext _).bind_eq fun _ => ?_
  refine (saltCliSecureFreeRegion_paired s.argvPlaintextCopy s.argvPlaintextCap).bind_eq fun _ => ?_
  refine (saltCliSecureFreeRegion_paired s.trimmedKeyInput s.trimmedKeyInputCap).bind_eq fun _ => ?_
  refine (unlockFixedBuffers_paired s.fixedBuffersLocked).bind_eq fun _ => ?_
  exact modifyState_paired (g := fun _ => zeroState) (fun _ => rfl) fun _ => rfl

theorem cleanupRun_paired (manageSignals : Bool) :
    Same K k k' (cleanupRun manageSignals) (cleanupRun manageSignals) :=
  .ite .rfl (((restoreSignalHandler_paired _).bind_eq fun _ => restoreSignalHandler_paired _).bind_eq
    fun _ => saltCliStateCleanup_paired) saltCliStateCleanup_paired

theorem saltCliStateInit_paired : Same K k k' saltCliStateInit saltCliStateInit := by
  refine (modifyState_paired (g := fun _ => zeroState) (fun _ => rfl) fun _ => rfl).bind_eq fun _ => ?_
  refine (modifyState_paired (g := fun s => { s with outputMode := .text, keyFormat := .auto })
    (fun _ => rfl) fun _ => rfl).bind_eq fun _ => ?_
  refine (sodiumMlock_paired _).bind_eq fun _ => (sodiumMlock_paired _).bind_eq fun _ =>
    (sodiumMlock_paired _).bind_eq fun _ => ?_
  exact modifyState_paired (g := fun s => { s with fixedBuffersLocked := true }) (fun _ => rfl)
    fun _ => rfl

end Cleanup

/-- A byte that a JSON string holds as it is. -/
structure Verbatim (c : UInt8) : Prop where
  printable : 0x20 ≤ c
  not_quote : c ≠ 34
  not_backslash : c ≠ 92

/-- Values that are written with the same number of calls. -/
def SameWrites (exact : Prop) (v v' : Bytes) : Prop :=
  List.Forall₂ (fun c c' => (exact → c = c') ∧ (c = c' ∨ Verbatim c ∧ Verbatim c')) v v'

theorem sameWrites_eq {exact : Prop} {v v' : Bytes} (h : SameWrites exact v v') (he : exact) : v = v' := by
  induction h with
  | nil => rfl
  | cons hhead _ ih => rw [hhead.1 he, ih]

theorem sameWrites_refl (exact : Prop) (v : Bytes) : SameWrites exact v v := by
  induction v with
  | nil => exact .nil
  | cons c v ih => exact .cons ⟨fun _ => rfl, .inl rfl⟩ ih

theorem writeJsonByte_verbatim {c : UInt8} (h : Verbatim c) : writeJsonByte c = cliStreamPutc c := by
  have hlow {n : UInt8} (hn : n < 0x20) : c ≠ n := by
    rintro rfl
    exact absurd h.printable (UInt8.not_le.2 hn)
  unfold writeJsonByte
  rw [if_neg (not_or.2 ⟨h.not_quote, h.not_backslash⟩), if_neg (hlow (by decide)),
    if_neg (hlow (by decide)), if_neg (hlow (by decide)), if_neg (UInt8.not_lt.2 h.printable)]

section Emission
variable {K : Known} {k k' : ℕ} {w w' : World}

theorem setMessage_paired (message : Bytes) (rc : SaltStatus) : Same K k k'
    (do modifyState fun s => { s with error := vsnprintf s.error message }; return rc)
    (do modifyState fun s => { s with error := vsnprintf s.error message }; return rc) :=
  (modifyState_paired (g := fun s => { s with error := vsnprintf s.error message }) (fun _ => rfl)
    fun _ => rfl).bind_eq fun _ => .ret rfl

theorem cliStreamWrite_paired {data data' : Bytes} (hd : K.exact → data = data') :
    Same K k k' (cliStreamWrite data) (cliStreamWrite data') :=
  (vfprintf_out_paired hd).bind_eq fun _ => .ite .rfl (setMessage_paired _ _) (.ret rfl)

theorem cliStreamFlush_paired : Same K k k' cliStreamFlush cliStreamFlush :=
  (fflush_paired .out).bind_eq fun _ => (ferror_paired .out).bind_eq fun _ =>
    .ite .rfl (setMessage_paired _ _) (.ret rfl)

theorem writeJsonByte_paired {c c' : UInt8} (hexact : K.exact → c = c')
    (h : c = c' ∨ Verbatim c ∧ Verbatim c') : Same K k k' (writeJsonByte c) (writeJsonByte c') := by
  rcases h with rfl | ⟨hc, hc'⟩
  · have hwrite (data : Bytes) : Same K k k' (cliStreamWrite data) (cliStreamWrite data) :=
      cliStreamWrite_paired fun _ => rfl
    refine .ite .rfl ((hwrite _).bind_eq fun _ => .ite .rfl (.ret rfl) (hwrite _)) ?_
    exact .ite .rfl (hwrite _) (.ite .rfl (hwrite _) (.ite .rfl (hwrite _)
      (.ite .rfl (hwrite _) (hwrite _))))
  · rw [writeJsonByte_verbatim hc, writeJsonByte_verbatim hc']
    exact cliStreamWrite_paired fun he => by rw [hexact he]

theorem writeJsonBytes_paired {v v' : Bytes} (h : SameWrites K.exact v v') :
    Same K k k' (writeJsonBytes v) (writeJsonBytes v') := by
  induction h with
  | nil => exact cliStreamWrite_paired fun _ => rfl
  | cons hhead _ ih =>
    exact (writeJsonByte_paired hhead.1 hhead.2).bind_eq fun _ => .ite .rfl (.ret rfl) ih

theorem writeJsonString_paired {value value' : CString}
    (h : SameWrites K.exact value.bytes value'.bytes) :
    Same K k k' (writeJsonString value) (writeJsonString value') :=
  (cliStreamWrite_paired fun _ => rfl).bind_eq fun _ => .ite .rfl (.ret rfl) (writeJsonBytes_paired h)

theorem writeAll_paired {writes writes' : List (Cli SaltStatus)}
    (h : List.Forall₂ (Same K k k') writes writes') :
    Same K k k' (writeAll writes) (writeAll writes') := by
  induction h with
  | nil => exact .ret rfl
  | cons hhead _ ih => exact hhead.bind_eq fun _ => .ite .rfl (.ret rfl) ih

theorem emitJson_paired {value value' : CString} (h : SameWrites K.exact value.bytes value'.bytes)
    (keyId : CString) : Same K k k' (emitJson value keyId) (emitJson value' keyId) := by
  have hwrite (data : Bytes) : Same K k k' (cliStreamWrite data) (cliStreamWrite data) :=
    cliStreamWrite_paired fun _ => rfl
  refine (writeAll_paired ?_).bind_eq fun _ => .ite .rfl (.ret rfl) cliStreamFlush_paired
  exact .cons (hwrite _) (.cons (hwrite _) (.cons (writeJsonString_paired h) (.cons (hwrite _)
    (.cons (writeJsonString_paired (sameWrites_refl _ _)) (.cons (hwrite _) .nil)))))

theorem saltCliEmitOutput_paired {value value' : CString}
    (h : SameWrites K.exact value.bytes value'.bytes) (mode : OutputMode) (keyId : Option CString) :
    Same K k k' (saltCliEmitOutput mode value keyId) (saltCliEmitOutput mode value' keyId) := by
  refine .ite .rfl ?_ ?_
  · exact (cliStreamWrite_paired fun he => by rw [sameWrites_eq h he]).bind_eq fun _ =>
      .ite .rfl (.ret rfl) cliStreamFlush_paired
  · cases keyId with
    | none => exact setMessage_paired _ _
    | some keyId =>
      exact .ite .rfl (setMessage_paired _ _) (.ite .rfl (setMessage_paired _ _)
        (emitJson_paired h keyId))

def outputValue (w : World) : CString := CString.ofBuffer (w.state.output.elim [] (blockBytes w))

theorem emitStage_jointly (h : Alike K k k' w w')
    (hvalue : SameWrites K.exact (outputValue w).bytes (outputValue w').bytes) :
    Jointly emitStage emitStage w w' fun rc rc' u u' => rc = rc' ∧ Alike K k k' u u' := by
  obtain ⟨s, hs, hs'⟩ := h.state
  have hmode : w.state.outputMode = w'.state.outputMode := by
    rw [hs, hs']
    rfl
  have hid : w.state.effectiveKeyId = w'.state.effectiveKeyId := by
    rw [hs, hs']
    rfl
  refine Jointly.bind_read rfl rfl ?_
  refine Jointly.bind_read (a := outputValue w) (b := outputValue w') rfl rfl ?_
  rw [hmode, hid]
  exact ((saltCliEmitOutput_paired hvalue _ _).bind_eq fun _ =>
    .ite .rfl (reportOrIo_paired _) (.ret rfl)) _ _ h

end Emission

end Salt.TwoRunStages
