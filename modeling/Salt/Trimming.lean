import Salt.KeyParsing

set_option autoImplicit false

/-!
# What the in-place trimmer computes

The array is followed through the four loops as a string, its terminator and
the bytes after it. Nothing at or past the given size changes.
-/
namespace Salt.Trimming
open ByteStrings KeyParsing

def trim (s : Bytes) : Bytes := strip cliIsAsciiWs s

/-- The string a buffer of the given size holds; without a terminator, all but the last byte. -/
def boundedCstr (value : Bytes) (size : ℕ) : Bytes := cstr (value.take (size - 1))

theorem memchr_zero {value : Bytes} {n : ℕ} (h : n ≤ value.length) :
    memchr value 0 n =
      some (if (cstr (value.take n)).length < n then some (cstr (value.take n)).length else none) := by
  induction value generalizing n with
  | nil =>
    obtain rfl : n = 0 := by simpa using h
    simp [memchr]
  | cons x rest ih =>
    cases n with
    | zero => simp [memchr]
    | succ n =>
      by_cases hx : x = 0
      · simp [memchr, hx, cstr]
      · have hc : cstr ((x :: rest).take (n + 1)) = x :: cstr (rest.take n) := by
          simp [cstr, hx]
        rw [memchr, if_neg hx, ih (by simpa using h), hc]
        by_cases hlt : (cstr (rest.take n)).length < n <;> simp [hlt]

theorem cstr_take_succ (value : Bytes) (n : ℕ) :
    cstr (value.take n) = (cstr (value.take (n + 1))).take n := by
  induction value generalizing n with
  | nil => simp [cstr]
  | cons x rest ih =>
    cases n with
    | zero => simp [cstr]
    | succ n =>
      by_cases hx : x = 0
      · simp [cstr, hx]
      · have h := ih n
        simp only [cstr] at h
        simpa [cstr, hx] using h

theorem drop_after_zero {value c u : Bytes} (h : value = c ++ 0 :: u) :
    value.drop (c.length + 1) = u := by
  subst h
  simp

theorem boundedCstr_length {value : Bytes} {n : ℕ} (hn : 0 < n) :
    (boundedCstr value n).length < n := by
  have h := (List.takeWhile_prefix (· ≠ (0 : UInt8)) (l := value.take (n - 1))).length_le
  rw [List.length_take] at h
  unfold boundedCstr cstr
  omega

/-- The first block of the trimmer: find the terminator or write one. -/
theorem forceTerminator_eq {value : Bytes} {n : ℕ} (hn : 0 < n) (h : n ≤ value.length) :
    ∃ nul, memchr value 0 n = some nul ∧ nul.getD (n - 1) = (boundedCstr value n).length ∧
      forceTerminator value n nul =
        some (boundedCstr value n ++ 0 :: value.drop ((boundedCstr value n).length + 1)) := by
  obtain ⟨m, rfl⟩ : ∃ m, n = m + 1 := ⟨n - 1, by omega⟩
  have hb : boundedCstr value (m + 1) = (cstr (value.take (m + 1))).take m :=
    cstr_take_succ value m
  refine ⟨_, memchr_zero h, ?_⟩
  unfold forceTerminator
  by_cases hz : 0 ∈ value.take (m + 1)
  · have hlt : (cstr (value.take (m + 1))).length < m + 1 := by
      have := cstr_length_lt hz
      rw [List.length_take] at this
      omega
    have hb' : boundedCstr value (m + 1) = cstr (value.take (m + 1)) := by
      rw [hb, List.take_of_length_le (by omega)]
    obtain ⟨rest, hrest⟩ := exists_cstr_append hz
    have hval : value = cstr (value.take (m + 1)) ++ 0 :: (rest ++ value.drop (m + 1)) := by
      conv_lhs => rw [← List.take_append_drop (m + 1) value, hrest]
      simp
    simp only [if_pos hlt, hb', Option.getD_some, true_and, reduceCtorEq, if_false]
    rw [drop_after_zero hval, ← hval]
  · have hfull : cstr (value.take (m + 1)) = value.take (m + 1) := cstr_of_noNul hz
    have hlen : (value.take (m + 1)).length = m + 1 := by rw [List.length_take]; omega
    have hb' : boundedCstr value (m + 1) = value.take m := by
      rw [hb, hfull, List.take_take, Nat.min_eq_left (Nat.le_succ m)]
    have hm : (value.take m).length = m := by rw [List.length_take]; omega
    simp only [hfull, hlen, lt_irrefl, if_false, Option.getD_none, if_true, hb', hm,
      Nat.add_sub_cancel, true_and]
    rw [store_of_lt (by omega), List.set_eq_take_append_cons_drop, if_pos (by omega)]

theorem scanLeading_append (a b t : Bytes) :
    scanLeading (a ++ (b ++ t)) a.length b.length =
      some (a.length + (b.takeWhile cliIsAsciiWs).length) := by
  induction b generalizing a with
  | nil => simp [scanLeading]
  | cons x b ih =>
    rw [List.length_cons, scanLeading]
    simp only [List.getElem?_append_right (le_refl _), Nat.sub_self, List.cons_append,
      List.getElem?_cons_zero, Option.bind_eq_bind, Option.bind_some]
    by_cases hx : cliIsAsciiWs x = true
    · have h := ih (a ++ [x])
      simp only [List.append_assoc, List.singleton_append, List.length_append,
        List.length_singleton] at h
      rw [if_pos hx, h, List.takeWhile_cons_of_pos hx, List.length_cons]
      congr 1
      omega
    · rw [if_neg hx, List.takeWhile_cons_of_neg hx]
      rfl

theorem moveDown_append (s : ℕ) (p q : Bytes) (n : ℕ) (h : s + 1 + n ≤ q.length) :
    moveDown (s + 1) (p ++ q) p.length n =
      some (p ++ ((q.drop (s + 1)).take n ++ q.drop n)) := by
  induction n generalizing p q with
  | zero => simp [moveDown]
  | succ n ih =>
    obtain ⟨x, q, rfl⟩ : ∃ x q', q = x :: q' := List.exists_cons_of_length_pos (by omega)
    have hs : s < q.length := by simp at h; omega
    have hread : (p ++ x :: q)[s + 1 + p.length]? = some q[s] := by
      rw [List.getElem?_append_right (by omega), Nat.add_sub_cancel, List.getElem?_cons_succ,
        List.getElem?_eq_getElem hs]
    have hstore : store (p ++ x :: q) p.length q[s] = some (p ++ [q[s]] ++ q) := by
      rw [store_of_lt (by simp), set_append_right]
      simp
    have hlen : p.length + 1 = (p ++ [q[s]]).length := by simp
    rw [moveDown, hread]
    simp only [Option.bind_eq_bind, Option.bind_some, hstore]
    rw [hlen, ih _ _ (by simp at h; omega), List.drop_succ_cons,
      List.drop_eq_getElem_cons (l := q) hs, List.take_succ_cons]
    simp

theorem scanTrailing_append (b t : Bytes) :
    scanTrailing (b ++ t) b.length = some (b.rdropWhile cliIsAsciiWs).length := by
  induction b using List.reverseRecOn generalizing t with
  | nil => simp [scanTrailing]
  | append_singleton b x ih =>
    rw [List.length_append, List.length_singleton, scanTrailing]
    have hread : (b ++ [x] ++ t)[b.length]? = some x := by simp
    rw [hread, Option.bind_eq_bind, Option.bind_some]
    by_cases hx : cliIsAsciiWs x = true
    · rw [if_pos hx, List.rdropWhile_concat_pos _ _ _ hx, List.append_assoc]
      exact ih ([x] ++ t)
    · rw [if_neg hx, List.rdropWhile_concat_neg _ _ _ hx]
      simp

theorem closeGap_append (lead core u : Bytes) : ∃ w,
    closeGap (lead ++ core ++ 0 :: u) lead.length (lead ++ core).length = some (core ++ 0 :: w) ∧
    core.length + 1 + w.length = (lead ++ core ++ 0 :: u).length ∧
    ∀ n, (lead ++ core).length < n → (core ++ 0 :: w).drop n = (lead ++ core ++ 0 :: u).drop n := by
  cases hlead : lead with
  | nil =>
    refine ⟨u, rfl, ?_, fun _ _ => rfl⟩
    simp only [List.nil_append, List.length_append, List.length_cons]
    omega
  | cons x lead' =>
    rw [← hlead]
    obtain ⟨s, hs⟩ : ∃ s, lead.length = s + 1 := ⟨lead'.length, by rw [hlead, List.length_cons]⟩
    have hm := moveDown_append s [] (lead ++ core ++ 0 :: u) (core.length + 1) (by simp; omega)
    have htake : ((lead ++ core ++ 0 :: u).drop (s + 1)).take (core.length + 1) = core ++ [0] := by
      rw [← hs, List.append_assoc, List.drop_left,
        show core ++ 0 :: u = core ++ [0] ++ u by simp, List.take_left' (by simp)]
    refine ⟨(lead ++ core ++ 0 :: u).drop (core.length + 1), ?_, ?_, fun n hn => ?_⟩
    · rw [closeGap, if_pos (by omega), hs, List.length_append, hs,
        show s + 1 + core.length - (s + 1) + 1 = core.length + 1 by omega]
      rw [List.nil_append, List.nil_append, htake, List.append_assoc core, List.singleton_append] at hm
      exact hm
    · simp only [List.length_drop, List.length_append, List.length_cons]
      omega
    · rw [List.length_append] at hn
      rw [show ∀ r : Bytes, core ++ 0 :: r = core ++ [0] ++ r by simp, List.drop_append,
        List.drop_of_length_le (by simp; omega), List.nil_append, List.drop_drop]
      congr 1
      simp only [List.length_append, List.length_singleton]
      omega

/-- In-place trimming, as one equation about strings. -/
theorem saltCliTrimWhitespaceInplace_eq {value : Bytes} {n : ℕ} (hn : 0 < n)
    (h : n ≤ value.length) :
    ∃ tail, saltCliTrimWhitespaceInplace value n =
        some (trim (boundedCstr value n) ++ 0 :: tail) ∧
      (trim (boundedCstr value n)).length + 1 + tail.length = value.length ∧
      (trim (boundedCstr value n) ++ 0 :: tail).drop n = value.drop n := by
  obtain ⟨nul, hnul, hlen, hval⟩ := forceTerminator_eq hn h
  have hlt : (boundedCstr value n).length < n := boundedCstr_length hn
  generalize hc : boundedCstr value n = c at *
  set u := value.drop (c.length + 1) with hu
  have hul : u.length = value.length - (c.length + 1) := by rw [hu, List.length_drop]
  have hdrop : (c ++ 0 :: u).drop n = value.drop n := by
    rw [List.drop_append, List.drop_of_length_le (by omega), List.nil_append,
      show n - c.length = (n - (c.length + 1)) + 1 by omega, List.drop_succ_cons, hu,
      List.drop_drop]
    congr 1
    omega
  -- the leading white space, whose length is the start index
  set lead := c.takeWhile cliIsAsciiWs with hlead
  set core := c.dropWhile cliIsAsciiWs with hcore
  have hsplit : lead ++ core = c := List.takeWhile_append_dropWhile
  have hll : lead.length + core.length = c.length := by
    rw [← List.length_append, hsplit]
  have hscan : scanLeading (c ++ 0 :: u) 0 c.length = some lead.length := by
    simpa using scanLeading_append [] c (0 :: u)
  obtain ⟨w, hw, hwl, hwd⟩ := closeGap_append lead core u
  rw [hsplit] at hw hwl hwd
  have hcl : (c ++ 0 :: u).length = value.length := by
    rw [List.length_append, List.length_cons, hul]
    omega
  have htrim : trim c = core.rdropWhile cliIsAsciiWs := rfl
  obtain ⟨trail, htrail⟩ := List.rdropWhile_prefix cliIsAsciiWs core
  rw [← htrim] at htrail
  have hback : scanTrailing (core ++ 0 :: w) core.length = some (trim c).length :=
    scanTrailing_append core (0 :: w)
  have htl : (trim c).length + trail.length = core.length := by
    rw [← List.length_append, htrail]
  have hset : (core ++ 0 :: w).set (trim c).length 0 =
      trim c ++ 0 :: (trail ++ 0 :: w).tail := by
    rw [← htrail, List.append_assoc]
    cases trail <;> simp
  refine ⟨(trail ++ 0 :: w).tail, ?_, ?_, ?_⟩
  · simp only [saltCliTrimWhitespaceInplace, if_neg (Nat.ne_of_gt hn), hnul, hlen, hval,
      Option.bind_eq_bind, Option.bind_some, hscan, hw,
      show c.length - lead.length = core.length from by omega, hback]
    rw [store_of_lt (by simp; omega), hset]
  · simp only [List.length_tail, List.length_append, List.length_cons]
    omega
  · rw [← hset, List.drop_set_of_lt (by omega), hwd n hlt, hdrop]

theorem trim_noNul {s : Bytes} (h : 0 ∉ s) : 0 ∉ trim s := fun hm =>
  h ((List.dropWhile_sublist _).subset ((List.rdropWhile_prefix _ _).sublist.subset hm))

theorem trim_trim (s : Bytes) : trim (trim s) = trim s := strip_strip _ s

theorem trim_length_le (s : Bytes) : (trim s).length ≤ s.length :=
  ((List.rdropWhile_prefix _ _).sublist.trans (List.dropWhile_sublist _)).length_le

/-- The bytes before the first NUL of an array, or all but the last byte if there is none. -/
def heldString (value : Bytes) : Bytes :=
  if 0 ∈ value then cstr value else value.take (value.length - 1)

theorem boundedCstr_all {value : Bytes} (h : 0 < value.length) :
    boundedCstr value value.length = heldString value := by
  have hall : boundedCstr value value.length = (cstr value).take (value.length - 1) := by
    rw [boundedCstr, cstr_take_succ, Nat.sub_add_cancel h, List.take_length]
  unfold heldString
  split_ifs with hz
  · have := cstr_length_lt hz
    rw [hall, List.take_of_length_le (by omega)]
  · rw [hall, cstr_of_noNul hz]

theorem heldString_terminated {s : Bytes} (h : 0 ∉ s) (tail : Bytes) : heldString (s ++ 0 :: tail) = s := by
  rw [heldString, if_pos (by simp), cstr_append_zero h]

theorem trim_buffer {s : Bytes} (hs : 0 ∉ s) (rest : Bytes) :
    ∃ tail, saltCliTrimWhitespaceInplace (s ++ 0 :: rest) (s ++ 0 :: rest).length =
        some (trim s ++ 0 :: tail) ∧
      (trim s ++ 0 :: tail).length = (s ++ 0 :: rest).length := by
  have hpos : 0 < (s ++ 0 :: rest).length := by
    rw [List.length_append, List.length_cons]
    omega
  obtain ⟨tail, htail, hlen, _⟩ := saltCliTrimWhitespaceInplace_eq hpos (le_refl _)
  have hb : boundedCstr (s ++ 0 :: rest) (s ++ 0 :: rest).length = s := by
    rw [boundedCstr_all hpos, heldString_terminated hs rest]
  rw [hb] at htail hlen
  exact ⟨tail, htail, by rw [← hlen]; simp; omega⟩

section Frame
variable {value beyond : Bytes}

theorem memchr_frame {c : UInt8} {n : ℕ} {nul : Option ℕ} (h : memchr value c n = some nul) :
    memchr (value ++ beyond) c n = some nul := by
  induction value generalizing n nul with
  | nil =>
    cases n with
    | zero => simpa [memchr] using h
    | succ n => simp [memchr] at h
  | cons x rest ih =>
    cases n with
    | zero => simpa [memchr] using h
    | succ n =>
      rw [memchr] at h
      rw [List.cons_append, memchr]
      split_ifs at h ⊢ with hx
      · exact h
      · obtain ⟨r, hr, hnul⟩ := Option.map_eq_some_iff.1 h
        rw [ih hr, Option.map_some, hnul]

theorem read_frame {i : ℕ} {c : UInt8} (h : value[i]? = some c) :
    (value ++ beyond)[i]? = some c := by
  obtain ⟨hi, -⟩ := List.getElem?_eq_some_iff.1 h
  rw [List.getElem?_append_left hi, h]

theorem store_frame {i : ℕ} {c : UInt8} {out : Bytes} (h : store value i c = some out) :
    store (value ++ beyond) i c = some (out ++ beyond) := by
  unfold store at h ⊢
  split_ifs at h with hi
  · rw [if_pos (by rw [List.length_append]; omega), List.set_append_left _ _ hi]
    rw [Option.some.inj h]

theorem scanLeading_frame {start n r : ℕ} (h : scanLeading value start n = some r) :
    scanLeading (value ++ beyond) start n = some r := by
  induction n generalizing start with
  | zero => exact h
  | succ n ih =>
    rw [scanLeading] at h
    obtain ⟨c, hc, hrest⟩ := Option.bind_eq_some_iff.1 h
    rw [scanLeading, read_frame hc, Option.bind_eq_bind, Option.bind_some]
    split_ifs at hrest ⊢ with hws
    · exact ih hrest
    · exact hrest

theorem moveDown_frame {start i n : ℕ} {out : Bytes} (h : moveDown start value i n = some out) :
    moveDown start (value ++ beyond) i n = some (out ++ beyond) := by
  induction n generalizing value i with
  | zero =>
    rw [moveDown] at h ⊢
    rw [Option.some.inj h]
  | succ n ih =>
    rw [moveDown] at h
    obtain ⟨c, hc, hrest⟩ := Option.bind_eq_some_iff.1 h
    obtain ⟨value', hstore, hrest⟩ := Option.bind_eq_some_iff.1 hrest
    rw [moveDown, read_frame hc, Option.bind_eq_bind, Option.bind_some, store_frame hstore]
    exact ih hrest

theorem scanTrailing_frame {n r : ℕ} (h : scanTrailing value n = some r) :
    scanTrailing (value ++ beyond) n = some r := by
  induction n with
  | zero => exact h
  | succ n ih =>
    rw [scanTrailing] at h
    obtain ⟨c, hc, hrest⟩ := Option.bind_eq_some_iff.1 h
    rw [scanTrailing, read_frame hc, Option.bind_eq_bind, Option.bind_some]
    split_ifs at hrest ⊢ with hws
    · exact ih hrest
    · exact hrest

theorem saltCliTrimWhitespaceInplace_frame {n : ℕ} {out : Bytes}
    (h : saltCliTrimWhitespaceInplace value n = some out) :
    saltCliTrimWhitespaceInplace (value ++ beyond) n = some (out ++ beyond) := by
  unfold saltCliTrimWhitespaceInplace at h ⊢
  split_ifs at h ⊢ with hn
  · rw [Option.some.inj h]
  · obtain ⟨nul, hnul, h⟩ := Option.bind_eq_some_iff.1 h
    obtain ⟨v₁, hforce, h⟩ := Option.bind_eq_some_iff.1 h
    obtain ⟨start, hstart, h⟩ := Option.bind_eq_some_iff.1 h
    obtain ⟨v₂, hgap, h⟩ := Option.bind_eq_some_iff.1 h
    obtain ⟨stop, hstop, h⟩ := Option.bind_eq_some_iff.1 h
    have hforce' : forceTerminator (value ++ beyond) n nul = some (v₁ ++ beyond) := by
      unfold forceTerminator at hforce ⊢
      split_ifs at hforce ⊢
      · exact store_frame hforce
      · rw [Option.some.inj hforce]
    have hgap' : closeGap (v₁ ++ beyond) start (nul.getD (n - 1)) = some (v₂ ++ beyond) := by
      unfold closeGap at hgap ⊢
      split_ifs at hgap ⊢
      · exact moveDown_frame hgap
      · rw [Option.some.inj hgap]
    simp only [Option.bind_eq_bind, memchr_frame hnul, Option.bind_some, hforce',
      scanLeading_frame hstart, hgap', scanTrailing_frame hstop]
    exact store_frame h

end Frame

/-- Space, TAB, LF, CR, VT and FF. -/
def whiteSpace : List UInt8 := [32, 9, 10, 13, 11, 12]

theorem cliIsAsciiWs_iff (c : UInt8) : cliIsAsciiWs c = true ↔ c ∈ whiteSpace := by
  simp [cliIsAsciiWs, whiteSpace, or_assoc]

/-- `t` is `s` without its longest beginning and its longest end of white space. -/
structure TrimsTo (s t : Bytes) : Prop where
  split : ∃ lead trail, s = lead ++ t ++ trail ∧ (∀ c ∈ lead, c ∈ whiteSpace) ∧
    ∀ c ∈ trail, c ∈ whiteSpace
  first : ∀ c ∈ t.head?, c ∉ whiteSpace
  last : ∀ c ∈ t.getLast?, c ∉ whiteSpace

theorem trimsTo_trim (s : Bytes) : TrimsTo s (trim s) where
  split := by
    refine ⟨s.takeWhile cliIsAsciiWs, (s.dropWhile cliIsAsciiWs).rtakeWhile cliIsAsciiWs, ?_,
      fun c hc => (cliIsAsciiWs_iff c).1 (List.mem_takeWhile_imp hc),
      fun c hc => (cliIsAsciiWs_iff c).1 (List.mem_rtakeWhile_imp hc)⟩
    rw [trim, strip, List.append_assoc, List.rdropWhile_append_rtakeWhile,
      List.takeWhile_append_dropWhile]
  first c hc hw := by
    rw [← cliIsAsciiWs_iff, strip_head cliIsAsciiWs s c hc] at hw
    exact Bool.noConfusion hw
  last c hc hw := by
    rw [← cliIsAsciiWs_iff, strip_last cliIsAsciiWs s c hc] at hw
    exact Bool.noConfusion hw

theorem heldString_noNul (value : Bytes) : 0 ∉ heldString value := by
  unfold heldString
  split_ifs with hz
  · exact cstr_noNul value
  · exact fun hm => hz (List.mem_of_mem_take hm)

theorem saltCliTrimWhitespaceInplace_whole {value : Bytes} (h : 0 < value.length) :
    ∃ out, saltCliTrimWhitespaceInplace value value.length = some out ∧
      out.length = value.length ∧ 0 ∈ out ∧ cstr out = trim (heldString value) := by
  obtain ⟨tail, hrun, hlen, -⟩ := saltCliTrimWhitespaceInplace_eq h (le_refl _)
  rw [boundedCstr_all h] at hrun hlen
  refine ⟨_, hrun, ?_, by simp, cstr_append_zero (trim_noNul (heldString_noNul value)) tail⟩
  rw [List.length_append, List.length_cons]
  omega

/-- In-place trimming against its specification, in an array with other bytes behind it. -/
theorem saltCliTrimWhitespaceInplace_correct (value beyond : Bytes) (h : 1 ≤ value.length) :
    ∃ out, saltCliTrimWhitespaceInplace value value.length = some out ∧
      saltCliTrimWhitespaceInplace (value ++ beyond) value.length = some (out ++ beyond) ∧
      out.length = value.length ∧ 0 ∈ out ∧ TrimsTo (heldString value) (cstr out) ∧
      ∃ again, saltCliTrimWhitespaceInplace (out ++ beyond) value.length = some (again ++ beyond) ∧
        again.length = value.length ∧ 0 ∈ again ∧ cstr again = cstr out := by
  obtain ⟨out, hrun, hlen, hzero, hcstr⟩ := saltCliTrimWhitespaceInplace_whole h
  have hpos : 0 < out.length := by omega
  obtain ⟨again, hrun', hlen', hzero', hcstr'⟩ := saltCliTrimWhitespaceInplace_whole hpos
  have hheld : heldString out = cstr out := by rw [heldString, if_pos hzero]
  refine ⟨out, hrun, saltCliTrimWhitespaceInplace_frame hrun, hlen, hzero, ?_, again, ?_,
    hlen'.trans hlen, hzero', ?_⟩
  · rw [hcstr]
    exact trimsTo_trim _
  · rw [← hlen]
    exact saltCliTrimWhitespaceInplace_frame hrun'
  · rw [hcstr', hheld, hcstr, trim_trim]

/-- An array without a terminator: its last byte is lost. -/
theorem saltCliTrimWhitespaceInplace_correct_unterminated :
    ∃ out, saltCliTrimWhitespaceInplace [32, 65, 9, 66] 4 = some out ∧
      saltCliTrimWhitespaceInplace ([32, 65, 9, 66] ++ [67]) 4 = some (out ++ [67]) ∧
      out.length = 4 ∧ 0 ∈ out ∧ TrimsTo [32, 65, 9] (cstr out) ∧
      ∃ again, saltCliTrimWhitespaceInplace (out ++ [67]) 4 = some (again ++ [67]) ∧
        again.length = 4 ∧ 0 ∈ again ∧ cstr again = cstr out :=
  saltCliTrimWhitespaceInplace_correct [32, 65, 9, 66] [67] (by decide)

end Salt.Trimming
