import Salt.ByteStrings

set_option autoImplicit false

/-!
# Command-line options in the manner of `getopt_long`

The words behind the program's name are read one option at a time, with the
rest of a word of short options and the operands passed over kept between the
calls. A leading colon of the option string, by which a missing argument is
told from an unknown option, is taken for granted. The grammar says which
command lines hold nothing but options and operands.
-/
namespace OptionScan
open ByteStrings

structure LongOption where
  name : Bytes
  takesArg : Bool
  val : UInt8
deriving DecidableEq

structure Table where
  optstring : Bytes
  longOptions : List LongOption
  /-- Operands may stand before options. -/
  permute : Bool

def dash : UInt8 := 45
def equals : UInt8 := 61
def colon : UInt8 := 58
def semicolon : UInt8 := 59

/-- The place of a letter in the option string; a colon behind it asks for an argument. -/
def findShort : Bytes → UInt8 → Option Bool
  | [], _ => none
  | x :: rest, c => if x = c then some (decide (rest.head? = some colon)) else findShort rest c

def Table.short (t : Table) (c : UInt8) : Option Bool :=
  if c = colon ∨ c = semicolon then none else findShort t.optstring c

/-- The exact name, or what all names with this beginning agree on. -/
def Table.long (t : Table) (name : Bytes) : Option LongOption :=
  match t.longOptions.find? fun o => o.name = name with
  | some o => some o
  | none =>
    match t.longOptions.filter fun o => name.isPrefixOf o.name with
    | [] => none
    | o :: os => if ∀ p ∈ os, p.takesArg = o.takesArg ∧ p.val = o.val then some o else none

inductive Event where
  | option (val : UInt8) (optarg : Option Bytes)
  /-- The result `:`. -/
  | missing (optopt : UInt8)
  /-- The result `?` with `optopt` set. -/
  | invalid (optopt : UInt8)
  /-- The result `?` with `optopt` zero, behind the word in question. -/
  | unrecognized (token : Bytes)
deriving DecidableEq

/-- `nextchar`, the words from `optind` on, and the operands passed over. -/
structure Scanner where
  nextchar : Bytes
  rest : List Bytes
  operands : List Bytes

def start (words : List Bytes) : Scanner := ⟨[], words, []⟩

def withArgument (val : UInt8) (attached : Option Bytes) (rest operands : List Bytes) :
    Event × Scanner :=
  match attached, rest with
  | some v, rest => (.option val (some v), ⟨[], rest, operands⟩)
  | none, v :: rest => (.option val (some v), ⟨[], rest, operands⟩)
  | none, [] => (.missing val, ⟨[], [], operands⟩)

def shortStep (t : Table) (c : UInt8) (cs : Bytes) (rest operands : List Bytes) : Event × Scanner :=
  match t.short c with
  | none => (.invalid c, ⟨cs, rest, operands⟩)
  | some false => (.option c none, ⟨cs, rest, operands⟩)
  | some true => withArgument c (if cs = [] then none else some cs) rest operands

def splitName (text : Bytes) : Bytes × Option Bytes :=
  (text.takeWhile (· ≠ equals), (text.dropWhile (· ≠ equals)).tail?)

def longStep (t : Table) (text : Bytes) (rest operands : List Bytes) : Event × Scanner :=
  match t.long (splitName text).1 with
  | none => (.unrecognized (dash :: dash :: text), ⟨[], rest, operands⟩)
  | some o =>
    if o.takesArg then withArgument o.val (splitName text).2 rest operands
    else if (splitName text).2.isSome then (.invalid o.val, ⟨[], rest, operands⟩)
    else (.option o.val none, ⟨[], rest, operands⟩)

/-- A lone dash and the empty word are operands. -/
def isOperand (w : Bytes) : Bool := decide (w.head? ≠ some dash ∨ w = [dash])

/-- The first event of a word that is no operand. -/
def wordStep (t : Table) (w : Bytes) (rest operands : List Bytes) : Event × Scanner :=
  if w.take 2 = [dash, dash] then longStep t (w.drop 2) rest operands
  else shortStep t (w.getD 1 0) (w.drop 2) rest operands

/-- The next word that is not passed over. Behind the word `--` all are operands. -/
def nextWord (t : Table) : List Bytes → List Bytes → Option Event × Scanner
  | [], operands => (none, ⟨[], [], operands⟩)
  | w :: rest, operands =>
    if isOperand w then
      if t.permute then nextWord t rest (operands ++ [w])
      else (none, ⟨[], [], operands ++ w :: rest⟩)
    else if w = [dash, dash] then (none, ⟨[], [], operands ++ rest⟩)
    else Prod.map some id (wordStep t w rest operands)

def getoptLong (t : Table) (s : Scanner) : Option Event × Scanner :=
  match s.nextchar with
  | [] => nextWord t s.rest s.operands
  | c :: cs => Prod.map some id (shortStep t c cs s.rest s.operands)

def wordsSize : List Bytes → ℕ
  | [] => 0
  | w :: rest => w.length + 1 + wordsSize rest

def Scanner.size (s : Scanner) : ℕ := s.nextchar.length + wordsSize s.rest

section Progress
variable {t : Table} {s : Scanner}

theorem withArgument_size (val : UInt8) (attached : Option Bytes) (rest operands : List Bytes) :
    (withArgument val attached rest operands).2.size ≤ wordsSize rest := by
  unfold withArgument
  split <;> simp [Scanner.size, wordsSize]

theorem shortStep_size (t : Table) (c : UInt8) (cs : Bytes) (rest operands : List Bytes) :
    (shortStep t c cs rest operands).2.size ≤
      cs.length + wordsSize rest := by
  unfold shortStep
  split
  · exact le_refl _
  · exact le_refl _
  · exact (withArgument_size ..).trans (Nat.le_add_left ..)

theorem longStep_size (t : Table) (text : Bytes) (rest operands : List Bytes) :
    (longStep t text rest operands).2.size ≤ wordsSize rest := by
  unfold longStep
  split
  · simp [Scanner.size]
  · split_ifs
    · exact withArgument_size ..
    · simp [Scanner.size]
    · simp [Scanner.size]

theorem wordStep_size (t : Table) (w : Bytes) (rest operands : List Bytes) :
    (wordStep t w rest operands).2.size ≤ w.length + wordsSize rest := by
  unfold wordStep
  split_ifs
  · exact (longStep_size ..).trans (Nat.le_add_left ..)
  · refine (shortStep_size ..).trans (Nat.add_le_add_right ?_ _)
    exact (List.drop_sublist 2 w).length_le

theorem nextWord_size {e : Event} (words operands : List Bytes)
    (h : (nextWord t words operands).1 = some e) :
    (nextWord t words operands).2.size < wordsSize words := by
  induction words generalizing operands with
  | nil => cases h
  | cons w rest ih =>
    rw [nextWord] at h ⊢
    simp only [wordsSize]
    split_ifs at h ⊢
    · have := ih _ h
      omega
    · have := wordStep_size t w rest operands
      change (wordStep t w rest operands).2.size < _
      omega

theorem withArgument_rest (val : UInt8) (attached : Option Bytes) (rest operands : List Bytes) :
    (withArgument val attached rest operands).2.rest <:+ rest := by
  unfold withArgument
  split
  · exact List.suffix_rfl
  · exact List.suffix_cons _ _
  · exact List.suffix_rfl

theorem shortStep_rest (t : Table) (c : UInt8) (cs : Bytes) (rest operands : List Bytes) :
    (shortStep t c cs rest operands).2.rest <:+ rest := by
  unfold shortStep
  split
  · exact List.suffix_rfl
  · exact List.suffix_rfl
  · exact withArgument_rest ..

theorem longStep_rest (t : Table) (text : Bytes) (rest operands : List Bytes) :
    (longStep t text rest operands).2.rest <:+ rest := by
  unfold longStep
  split
  · exact List.suffix_rfl
  · split_ifs
    · exact withArgument_rest ..
    · exact List.suffix_rfl
    · exact List.suffix_rfl

theorem nextWord_rest (words operands : List Bytes) : (nextWord t words operands).2.rest <:+ words := by
  induction words generalizing operands with
  | nil => exact List.suffix_rfl
  | cons w rest ih =>
    rw [nextWord]
    split_ifs
    · exact (ih _).trans (List.suffix_cons _ _)
    · exact List.nil_suffix
    · exact List.nil_suffix
    · refine List.IsSuffix.trans ?_ (List.suffix_cons w rest)
      change (wordStep t w rest operands).2.rest <:+ rest
      unfold wordStep
      split_ifs
      · exact longStep_rest ..
      · exact shortStep_rest ..

theorem getoptLong_rest (t : Table) (s : Scanner) : (getoptLong t s).2.rest <:+ s.rest := by
  obtain ⟨nextchar, rest, operands⟩ := s
  cases nextchar with
  | nil => exact nextWord_rest rest operands
  | cons c cs => exact shortStep_rest t c cs rest operands

theorem getoptLong_size {e : Event} (h : (getoptLong t s).1 = some e) :
    (getoptLong t s).2.size < s.size := by
  obtain ⟨nextchar, rest, operands⟩ := s
  cases nextchar with
  | nil =>
    have := nextWord_size rest operands h
    simpa [Scanner.size, getoptLong] using this
  | cons c cs =>
    have := shortStep_size t c cs rest operands
    change (shortStep t c cs rest operands).2.size < _
    simp only [Scanner.size, List.length_cons] at this ⊢
    omega

end Progress

def drain (t : Table) (s : Scanner) : List Event × List Bytes :=
  match _h : (getoptLong t s).1 with
  | none => ([], (getoptLong t s).2.operands)
  | some e =>
    let r := drain t (getoptLong t s).2
    (e :: r.1, r.2)
termination_by s.size
decreasing_by exact getoptLong_size _h

def scan (t : Table) (words : List Bytes) : List Event × List Bytes := drain t (start words)

section Draining
variable {t : Table} {s : Scanner}

theorem drain_none (h : (getoptLong t s).1 = none) :
    drain t s = ([], (getoptLong t s).2.operands) := by
  rw [drain]
  split
  · rfl
  · next e he => cases h.symm.trans he

theorem drain_some {e : Event} (h : (getoptLong t s).1 = some e) :
    drain t s = (e :: (drain t (getoptLong t s).2).1, (drain t (getoptLong t s).2).2) := by
  rw [drain]
  split
  · next he => cases h.symm.trans he
  · next e' he =>
    obtain rfl : e' = e := Option.some.inj (he.symm.trans h)
    rfl

theorem drain_short (c : UInt8) (cs : Bytes) (rest operands : List Bytes) :
    drain t ⟨c :: cs, rest, operands⟩ =
      ((shortStep t c cs rest operands).1 :: (drain t (shortStep t c cs rest operands).2).1,
        (drain t (shortStep t c cs rest operands).2).2) :=
  drain_some rfl

theorem drain_nil (operands : List Bytes) : drain t ⟨[], [], operands⟩ = ([], operands) :=
  drain_none rfl

theorem drain_operand {w : Bytes} (hw : isOperand w = true) (hp : t.permute = true)
    (rest operands : List Bytes) :
    drain t ⟨[], w :: rest, operands⟩ = drain t ⟨[], rest, operands ++ [w]⟩ := by
  have hcall : getoptLong t ⟨[], w :: rest, operands⟩ = getoptLong t ⟨[], rest, operands ++ [w]⟩ := by
    simp only [getoptLong, nextWord, hw, hp, if_true]
  cases he : (getoptLong t ⟨[], rest, operands ++ [w]⟩).1 with
  | none => rw [drain_none he, drain_none (hcall ▸ he), hcall]
  | some e => rw [drain_some he, drain_some (hcall ▸ he), hcall]

theorem drain_stop {w : Bytes} (hw : isOperand w = true) (hp : t.permute = false)
    (rest operands : List Bytes) :
    drain t ⟨[], w :: rest, operands⟩ = ([], operands ++ w :: rest) := by
  have hcall : getoptLong t ⟨[], w :: rest, operands⟩ = (none, ⟨[], [], operands ++ w :: rest⟩) := by
    simp only [getoptLong, nextWord, hw, hp, if_true, Bool.false_eq_true, if_false]
  rw [drain_none (by rw [hcall]), hcall]

theorem drain_terminator (rest operands : List Bytes) :
    drain t ⟨[], [dash, dash] :: rest, operands⟩ = ([], operands ++ rest) := by
  have hcall : getoptLong t ⟨[], [dash, dash] :: rest, operands⟩ =
      (none, ⟨[], [], operands ++ rest⟩) := rfl
  rw [drain_none (by rw [hcall]), hcall]

theorem drain_word {w : Bytes} (hw : isOperand w = false) (hterm : w ≠ [dash, dash])
    (rest operands : List Bytes) :
    drain t ⟨[], w :: rest, operands⟩ =
      ((wordStep t w rest operands).1 :: (drain t (wordStep t w rest operands).2).1,
        (drain t (wordStep t w rest operands).2).2) := by
  have hcall : getoptLong t ⟨[], w :: rest, operands⟩ =
      Prod.map some id (wordStep t w rest operands) := by
    simp only [getoptLong, nextWord, hw, Bool.false_eq_true, if_false, hterm]
  rw [drain_some (e := (wordStep t w rest operands).1) (by rw [hcall]; rfl), hcall]
  rfl

end Draining

abbrev Setting := UInt8 × Option Bytes

/-- The letters of a word of short options, and the argument that stands behind the word. -/
inductive Cluster (t : Table) : Bytes → List Setting → List Bytes → Prop where
  | nil : Cluster t [] [] []
  | flag {c : UInt8} {cs : Bytes} {options : List Setting} {words : List Bytes}
      (hc : t.short c = some false) (h : Cluster t cs options words) :
      Cluster t (c :: cs) ((c, none) :: options) words
  | attached {c : UInt8} {v : Bytes} (hc : t.short c = some true) (hv : v ≠ []) :
      Cluster t (c :: v) [(c, some v)] []
  | separate {c : UInt8} {v : Bytes} (hc : t.short c = some true) :
      Cluster t [c] [(c, some v)] [v]

/-- The words that spell some options: one word, and at most one more for an argument. -/
inductive Spells (t : Table) : List Setting → List Bytes → Prop where
  | short {c : UInt8} {cs : Bytes} {options : List Setting} {words : List Bytes} (hc : c ≠ dash)
      (h : Cluster t (c :: cs) options words) : Spells t options ((dash :: c :: cs) :: words)
  | long {name : Bytes} {o : LongOption} (hname : name ≠ []) (heq : equals ∉ name)
      (ho : t.long name = some o) (hflag : o.takesArg = false) :
      Spells t [(o.val, none)] [dash :: dash :: name]
  | longSeparate {name v : Bytes} {o : LongOption} (hname : name ≠ []) (heq : equals ∉ name)
      (ho : t.long name = some o) (harg : o.takesArg = true) :
      Spells t [(o.val, some v)] [dash :: dash :: name, v]
  | longAttached {name v : Bytes} {o : LongOption} (heq : equals ∉ name)
      (ho : t.long name = some o) (harg : o.takesArg = true) :
      Spells t [(o.val, some v)] [dash :: dash :: (name ++ equals :: v)]

/-- A command line: its options and its operands, each in order. -/
inductive Line (t : Table) : List Setting → List Bytes → List Bytes → Prop where
  | nil : Line t [] [] []
  | terminator {operands : List Bytes} : Line t [] operands ([dash, dash] :: operands)
  | stop {w : Bytes} {operands : List Bytes} (hw : isOperand w = true) (hp : t.permute = false) :
      Line t [] (w :: operands) (w :: operands)
  | operand {w : Bytes} {options : List Setting} {operands words : List Bytes}
      (hw : isOperand w = true) (hp : t.permute = true) (h : Line t options operands words) :
      Line t options (w :: operands) (w :: words)
  | option {options options' : List Setting} {operands spelled words : List Bytes}
      (hs : Spells t options spelled) (h : Line t options' operands words) :
      Line t (options ++ options') operands (spelled ++ words)

def optionEvents (options : List Setting) : List Event := options.map fun o => .option o.1 o.2

section Reading
variable {t : Table}

theorem splitName_bare {name : Bytes} (heq : equals ∉ name) : splitName name = (name, none) := by
  have hne : ∀ b ∈ name, decide (b ≠ equals) = true := fun b hb =>
    decide_eq_true fun h => heq (h ▸ hb)
  have hdrop : name.dropWhile (· ≠ equals) = [] := List.dropWhile_eq_nil_iff.2 hne
  rw [splitName, hdrop, List.takeWhile_eq_self_iff.2 hne]
  rfl

theorem splitName_attached {name : Bytes} (heq : equals ∉ name) (v : Bytes) :
    splitName (name ++ equals :: v) = (name, some v) := by
  have hne : ∀ b ∈ name, decide (b ≠ equals) = true := fun b hb =>
    decide_eq_true fun h => heq (h ▸ hb)
  rw [splitName, List.takeWhile_append_of_pos hne, List.dropWhile_append_of_pos hne]
  simp

theorem splitName_equals (text : Bytes) : equals ∉ (splitName text).1 := by
  intro h
  simpa using List.mem_takeWhile_imp h

theorem Cluster.drain {cs : Bytes} {options : List Setting} {words : List Bytes}
    (h : Cluster t cs options words) (rest operands : List Bytes) :
    drain t ⟨cs, words ++ rest, operands⟩ =
      (optionEvents options ++ (OptionScan.drain t ⟨[], rest, operands⟩).1,
        (OptionScan.drain t ⟨[], rest, operands⟩).2) := by
  induction h with
  | nil => rfl
  | flag hc _ ih =>
    rw [drain_short]
    simp only [shortStep, hc, ih]
    rfl
  | attached hc hv =>
    rw [drain_short]
    simp only [shortStep, hc, if_neg hv]
    rfl
  | separate hc =>
    rw [drain_short]
    simp only [shortStep, hc, if_true]
    rfl

theorem isOperand_option (c : UInt8) (cs : Bytes) : isOperand (dash :: c :: cs) = false := by
  simp [isOperand]

theorem wordStep_long (text : Bytes) (rest operands : List Bytes) :
    wordStep t (dash :: dash :: text) rest operands = longStep t text rest operands := rfl

theorem wordStep_short {c : UInt8} (hc : c ≠ dash) (cs : Bytes) (rest operands : List Bytes) :
    wordStep t (dash :: c :: cs) rest operands = shortStep t c cs rest operands := by
  have hne : (dash :: c :: cs).take 2 ≠ [dash, dash] := by simpa using hc
  rw [wordStep, if_neg hne]
  rfl

theorem longStep_bare {name : Bytes} {o : LongOption} (heq : equals ∉ name)
    (ho : t.long name = some o) (rest operands : List Bytes) :
    longStep t name rest operands = if o.takesArg then withArgument o.val none rest operands
      else (.option o.val none, ⟨[], rest, operands⟩) := by
  rw [longStep, splitName_bare heq, ho]
  rfl

theorem longStep_attached {name v : Bytes} {o : LongOption} (heq : equals ∉ name)
    (ho : t.long name = some o) (rest operands : List Bytes) :
    longStep t (name ++ equals :: v) rest operands =
      if o.takesArg then (.option o.val (some v), ⟨[], rest, operands⟩)
      else (.invalid o.val, ⟨[], rest, operands⟩) := by
  rw [longStep, splitName_attached heq, ho]
  rfl

theorem Spells.drain {options : List Setting} {spelled : List Bytes} (h : Spells t options spelled)
    (rest operands : List Bytes) :
    drain t ⟨[], spelled ++ rest, operands⟩ =
      (optionEvents options ++ (OptionScan.drain t ⟨[], rest, operands⟩).1,
        (OptionScan.drain t ⟨[], rest, operands⟩).2) := by
  cases h with
  | @short c cs _ words hc h =>
    have hne : dash :: c :: cs ≠ [dash, dash] := fun heq => hc (List.cons.inj (List.cons.inj heq).2).1
    rw [List.cons_append, drain_word (isOperand_option c cs) hne, wordStep_short hc, ← drain_short]
    exact h.drain rest operands
  | @long name o hname heq ho hflag =>
    have hne : dash :: dash :: name ≠ [dash, dash] := by simpa using hname
    rw [List.singleton_append, drain_word (isOperand_option dash name) hne, wordStep_long,
      longStep_bare heq ho, hflag]
    rfl
  | @longSeparate name v o hname heq ho harg =>
    have hne : dash :: dash :: name ≠ [dash, dash] := by simpa using hname
    rw [List.cons_append, drain_word (isOperand_option dash name) hne, wordStep_long,
      longStep_bare heq ho, harg]
    rfl
  | @longAttached name v o heq ho harg =>
    have hne : dash :: dash :: (name ++ equals :: v) ≠ [dash, dash] := by simp
    rw [List.singleton_append, drain_word (isOperand_option dash _) hne, wordStep_long,
      longStep_attached heq ho, harg]
    rfl

theorem Line.drain {options : List Setting} {operands words : List Bytes}
    (h : Line t options operands words) (passed : List Bytes) :
    drain t ⟨[], words, passed⟩ = (optionEvents options, passed ++ operands) := by
  induction h generalizing passed with
  | nil => rw [drain_nil, List.append_nil]; rfl
  | terminator => exact drain_terminator _ _
  | stop hw hp => exact drain_stop hw hp _ _
  | operand hw hp _ ih => rw [drain_operand hw hp, ih, List.append_assoc]; rfl
  | option hs _ ih => rw [hs.drain, ih, optionEvents, optionEvents, optionEvents, List.map_append]

end Reading

section Accepting
variable {t : Table}

/-- The letters in front are a cluster, the words behind it a command line. -/
def Readable (t : Table) (s : Scanner) (options : List Setting) (all : List Bytes) : Prop :=
  ∃ first later separate rest operands, options = first ++ later ∧ s.rest = separate ++ rest ∧
    all = s.operands ++ operands ∧ Cluster t s.nextchar first separate ∧ Line t later operands rest

theorem Readable.line {words passed all : List Bytes} {options : List Setting}
    (h : Readable t ⟨[], words, passed⟩ options all) :
    ∃ operands, all = passed ++ operands ∧ Line t options operands words := by
  obtain ⟨first, later, separate, rest, operands, rfl, hrest, rfl, hcluster, hline⟩ := h
  cases hcluster
  obtain rfl : words = rest := hrest
  exact ⟨operands, rfl, hline⟩

theorem optionEvents_cons {e : Event} {es : List Event} {options : List Setting}
    (h : e :: es = optionEvents options) :
    ∃ o later, options = o :: later ∧ e = .option o.1 o.2 ∧ es = optionEvents later := by
  cases options with
  | nil => cases h
  | cons o later =>
    obtain ⟨he, hes⟩ := List.cons.inj h
    exact ⟨o, later, rfl, he, hes⟩

theorem withArgument_option {val : UInt8} {attached : Option Bytes} {rest operands : List Bytes}
    {o : Setting} (h : (withArgument val attached rest operands).1 = .option o.1 o.2) :
    ∃ v, o = (val, some v) ∧
      ((attached = some v ∧ (withArgument val attached rest operands).2 = ⟨[], rest, operands⟩) ∨
        ∃ rest', attached = none ∧ rest = v :: rest' ∧
          (withArgument val attached rest operands).2 = ⟨[], rest', operands⟩) := by
  obtain ⟨o1, o2⟩ := o
  cases attached with
  | some v =>
    cases h
    exact ⟨v, rfl, .inl ⟨rfl, rfl⟩⟩
  | none =>
    cases rest with
    | nil => cases h
    | cons v rest' =>
      cases h
      exact ⟨v, rfl, .inr ⟨rest', rfl, rfl, rfl⟩⟩

theorem shortStep_readable {c : UInt8} {cs : Bytes} {rest operands all : List Bytes} {o : Setting}
    {later : List Setting} (h : (shortStep t c cs rest operands).1 = .option o.1 o.2)
    (hlater : Readable t (shortStep t c cs rest operands).2 later all) :
    Readable t ⟨c :: cs, rest, operands⟩ (o :: later) all := by
  unfold shortStep at h hlater
  split at h
  · cases h
  · next hc =>
    rw [hc] at hlater
    obtain ⟨first, later, separate, rest, operands, rfl, hrest, rfl, hcluster, hline⟩ := hlater
    obtain ⟨o1, o2⟩ := o
    cases h
    exact ⟨_, later, separate, rest, operands, rfl, hrest, rfl, .flag hc hcluster, hline⟩
  · next hc =>
    rw [hc] at hlater
    obtain ⟨v, rfl, ⟨hv, hstate⟩ | ⟨rest', hv, rfl, hstate⟩⟩ := withArgument_option h
    · rw [hstate] at hlater
      obtain ⟨operands', rfl, hline⟩ := hlater.line
      obtain ⟨hne, rfl⟩ : cs ≠ [] ∧ cs = v := by simpa using hv
      exact ⟨_, later, [], rest, operands', rfl, rfl, rfl, .attached hc hne, hline⟩
    · rw [hstate] at hlater
      obtain ⟨operands', rfl, hline⟩ := hlater.line
      obtain rfl : cs = [] := by simpa using hv
      exact ⟨_, later, [v], rest', operands', rfl, rfl, rfl, .separate hc, hline⟩

theorem splitName_cases (text : Bytes) :
    ((splitName text).2 = none ∧ text = (splitName text).1) ∨
      ∃ v, (splitName text).2 = some v ∧ text = (splitName text).1 ++ equals :: v := by
  have htext : text = (splitName text).1 ++ text.dropWhile (· ≠ equals) :=
    (List.takeWhile_append_dropWhile).symm
  cases hrest : text.dropWhile (· ≠ equals) with
  | nil =>
    rw [hrest, List.append_nil] at htext
    exact .inl ⟨congrArg List.tail? hrest, htext⟩
  | cons b v =>
    have hb : b = equals := by
      have := List.head?_dropWhile_not (· ≠ equals) text
      rw [hrest] at this
      simpa using this
    rw [hrest, hb] at htext
    exact .inr ⟨v, congrArg List.tail? hrest, htext⟩

theorem longStep_readable {text : Bytes} {rest operands all : List Bytes} {o : Setting}
    {later : List Setting} (htext : text ≠ []) (h : (longStep t text rest operands).1 = .option o.1 o.2)
    (hlater : Readable t (longStep t text rest operands).2 later all) :
    ∃ spelled rest' operands', (dash :: dash :: text) :: rest = spelled ++ rest' ∧
      Spells t [o] spelled ∧ all = operands ++ operands' ∧ Line t later operands' rest' := by
  have heq := splitName_equals text
  cases ho : t.long (splitName text).1 with
  | none => rw [longStep, ho] at h; cases h
  | some l =>
    rcases splitName_cases text with ⟨-, hbare⟩ | ⟨v, -, hattached⟩
    · rw [← hbare] at heq ho
      rw [longStep_bare heq ho] at h hlater
      cases harg : l.takesArg with
      | true =>
        rw [harg] at h hlater
        obtain ⟨v, rfl, ⟨hv, -⟩ | ⟨rest', -, rfl, hstate⟩⟩ := withArgument_option h
        · cases hv
        · change Readable t (withArgument _ _ _ _).2 _ _ at hlater
          rw [hstate] at hlater
          obtain ⟨operands', rfl, hline⟩ := hlater.line
          exact ⟨[_, v], rest', operands', rfl, .longSeparate htext heq ho harg, rfl, hline⟩
      | false =>
        rw [harg] at h hlater
        obtain ⟨o1, o2⟩ := o
        cases h
        obtain ⟨operands', rfl, hline⟩ := hlater.line
        exact ⟨[_], rest, operands', rfl, .long htext heq ho harg, rfl, hline⟩
    · rw [hattached] at h hlater ⊢
      rw [longStep_attached heq ho] at h hlater
      cases harg : l.takesArg with
      | true =>
        rw [harg] at h hlater
        obtain ⟨o1, o2⟩ := o
        cases h
        obtain ⟨operands', rfl, hline⟩ := hlater.line
        exact ⟨[_], rest, operands', rfl, .longAttached heq ho harg, rfl, hline⟩
      | false =>
        rw [harg] at h
        cases h

theorem not_operand {w : Bytes} (h : isOperand w = false) : ∃ c cs, w = dash :: c :: cs := by
  simp only [isOperand, decide_eq_false_iff_not, not_or, not_not] at h
  obtain ⟨hhead, hne⟩ := h
  cases w with
  | nil => cases hhead
  | cons b w =>
    obtain rfl : b = dash := by simpa using hhead
    cases w with
    | nil => exact absurd rfl hne
    | cons c cs => exact ⟨c, cs, rfl⟩

theorem Readable.ofLine {words passed operands : List Bytes} {options : List Setting}
    (h : Line t options operands words) : Readable t ⟨[], words, passed⟩ options (passed ++ operands) :=
  ⟨[], options, [], words, operands, rfl, rfl, rfl, .nil, h⟩

theorem wordStep_readable {w : Bytes} {rest operands all : List Bytes} {o : Setting}
    {later : List Setting} (hw : isOperand w = false) (hterm : w ≠ [dash, dash])
    (h : (wordStep t w rest operands).1 = .option o.1 o.2)
    (hlater : Readable t (wordStep t w rest operands).2 later all) :
    Readable t ⟨[], w :: rest, operands⟩ (o :: later) all := by
  obtain ⟨c, cs, rfl⟩ := not_operand hw
  by_cases hc : c = dash
  · subst hc
    have hcs : cs ≠ [] := by simpa using hterm
    obtain ⟨spelled, rest', operands', hwords, hspells, rfl, hline⟩ :=
      longStep_readable hcs h hlater
    rw [hwords]
    exact .ofLine (.option hspells hline)
  · rw [wordStep_short hc] at h hlater
    obtain ⟨first, later', separate, rest', operands', hoptions, hrest, rfl, hcluster, hline⟩ :=
      shortStep_readable h hlater
    obtain rfl : rest = separate ++ rest' := hrest
    rw [hoptions]
    exact .ofLine (.option (.short hc hcluster) hline)

/-- Events that are all options show that the words still to be read are in the grammar. -/
theorem readable_of_drain (n : ℕ) : ∀ (s : Scanner) (options : List Setting) (all : List Bytes),
    s.size = n → drain t s = (optionEvents options, all) → Readable t s options all := by
  induction n using Nat.strong_induction_on with
  | _ n ih =>
    rintro ⟨nextchar, words, passed⟩ options all rfl h
    cases nextchar with
    | cons c cs =>
      rw [drain_short] at h
      obtain ⟨hevents, hall⟩ := Prod.mk.inj h
      obtain ⟨o, later, rfl, hevent, hlater⟩ := optionEvents_cons hevents
      have hsize := shortStep_size t c cs words passed
      refine shortStep_readable hevent (ih _ ?_ _ later all rfl (Prod.ext hlater hall))
      simp only [Scanner.size, List.length_cons] at hsize ⊢
      omega
    | nil =>
      cases words with
      | nil =>
        rw [drain_nil] at h
        obtain ⟨hevents, rfl⟩ := Prod.mk.inj h
        obtain rfl : options = [] := List.map_eq_nil_iff.1 hevents.symm
        have hdone : Readable t ⟨[], [], passed⟩ [] (passed ++ []) := .ofLine .nil
        simpa using hdone
      | cons w rest =>
        cases hw : isOperand w with
        | true =>
          cases hp : t.permute with
          | true =>
            rw [drain_operand hw hp] at h
            have hless : (Scanner.mk [] rest (passed ++ [w])).size <
                (Scanner.mk [] (w :: rest) passed).size := by
              simp [Scanner.size, wordsSize]
            obtain ⟨operands, rfl, hline⟩ := (ih _ hless _ options all rfl h).line
            rw [List.append_assoc]
            exact .ofLine (.operand hw hp hline)
          | false =>
            rw [drain_stop hw hp] at h
            obtain ⟨hevents, rfl⟩ := Prod.mk.inj h
            obtain rfl : options = [] := List.map_eq_nil_iff.1 hevents.symm
            exact .ofLine (.stop hw hp)
        | false =>
          by_cases hterm : w = [dash, dash]
          · rw [hterm, drain_terminator] at h
            obtain ⟨hevents, rfl⟩ := Prod.mk.inj h
            obtain rfl : options = [] := List.map_eq_nil_iff.1 hevents.symm
            rw [hterm]
            exact .ofLine .terminator
          · rw [drain_word hw hterm] at h
            obtain ⟨hevents, hall⟩ := Prod.mk.inj h
            obtain ⟨o, later, rfl, hevent, hlater⟩ := optionEvents_cons hevents
            have hsize := wordStep_size t w rest passed
            refine wordStep_readable hw hterm hevent (ih _ ?_ _ later all rfl (Prod.ext hlater hall))
            simp only [Scanner.size, wordsSize, List.length_nil] at hsize ⊢
            omega

/-- The scanner finds nothing to complain about in the command lines of the grammar and in no others,
and reads them as the grammar does. -/
theorem scan_iff (words : List Bytes) (options : List Setting) (operands : List Bytes) :
    scan t words = (optionEvents options, operands) ↔ Line t options operands words := by
  constructor
  · intro h
    obtain ⟨operands', rfl, hline⟩ := (readable_of_drain _ (start words) options operands rfl h).line
    exact hline
  · intro h
    exact h.drain []

structure Drawn (P : UInt8 → Prop) (options : List Setting) (operands : List Bytes) : Prop where
  options : ∀ o ∈ options, ∀ v ∈ o.2, ∀ b ∈ v, P b
  operands : ∀ w ∈ operands, ∀ b ∈ w, P b

section Letters
variable {P : UInt8 → Prop}

theorem Cluster.drawn {cs : Bytes} {options : List Setting} {words : List Bytes}
    (h : Cluster t cs options words) (hcs : ∀ b ∈ cs, P b) (hwords : ∀ w ∈ words, ∀ b ∈ w, P b) :
    ∀ o ∈ options, ∀ v ∈ o.2, ∀ b ∈ v, P b := by
  induction h with
  | nil => exact fun o ho => absurd ho List.not_mem_nil
  | flag _ _ ih =>
    have hrest := ih (fun b hb => hcs b (List.mem_cons_of_mem _ hb)) hwords
    exact List.forall_mem_cons.2 ⟨fun v hv => (Option.not_mem_none v hv).elim, hrest⟩
  | attached _ _ =>
    refine List.forall_mem_singleton.2 fun v hv b hb => ?_
    obtain rfl := Option.some.inj hv
    exact hcs b (List.mem_cons_of_mem _ hb)
  | separate _ =>
    refine List.forall_mem_singleton.2 fun v hv b hb => ?_
    obtain rfl := Option.some.inj hv
    exact hwords _ List.mem_cons_self b hb

theorem Spells.drawn {options : List Setting} {spelled : List Bytes} (h : Spells t options spelled)
    (hspelled : ∀ w ∈ spelled, ∀ b ∈ w, P b) : ∀ o ∈ options, ∀ v ∈ o.2, ∀ b ∈ v, P b := by
  cases h with
  | short _ h =>
    obtain ⟨hword, hwords⟩ := List.forall_mem_cons.1 hspelled
    exact h.drawn (fun b hb => hword b (List.mem_cons_of_mem _ hb)) hwords
  | long _ _ _ _ => exact List.forall_mem_singleton.2 fun v hv => (Option.not_mem_none v hv).elim
  | longSeparate _ _ _ _ =>
    refine List.forall_mem_singleton.2 fun v hv b hb => ?_
    obtain rfl := Option.some.inj hv
    exact hspelled _ (List.mem_cons_of_mem _ List.mem_cons_self) b hb
  | longAttached _ _ _ =>
    refine List.forall_mem_singleton.2 fun v hv b hb => ?_
    obtain rfl := Option.some.inj hv
    exact hspelled _ List.mem_cons_self b (by simp [hb])

theorem Line.drawn {options : List Setting} {operands words : List Bytes}
    (h : Line t options operands words) (hwords : ∀ w ∈ words, ∀ b ∈ w, P b) :
    Drawn P options operands := by
  induction h with
  | nil => exact ⟨fun o ho => absurd ho List.not_mem_nil, hwords⟩
  | terminator =>
    exact ⟨fun o ho => absurd ho List.not_mem_nil, (List.forall_mem_cons.1 hwords).2⟩
  | stop _ _ => exact ⟨fun o ho => absurd ho List.not_mem_nil, hwords⟩
  | operand _ _ _ ih =>
    obtain ⟨hw, hrest⟩ := List.forall_mem_cons.1 hwords
    exact ⟨(ih hrest).options, List.forall_mem_cons.2 ⟨hw, (ih hrest).operands⟩⟩
  | option hs _ ih =>
    obtain ⟨hspelled, hrest⟩ := List.forall_mem_append.1 hwords
    exact ⟨List.forall_mem_append.2 ⟨hs.drawn hspelled, (ih hrest).options⟩, (ih hrest).operands⟩

end Letters

def Fits (t : Table) (o : Setting) : Prop :=
  t.short o.1 = some o.2.isSome ∨
    ∃ name l, t.long name = some l ∧ l.val = o.1 ∧ l.takesArg = o.2.isSome

theorem Cluster.fits {cs : Bytes} {options : List Setting} {words : List Bytes}
    (h : Cluster t cs options words) : ∀ o ∈ options, Fits t o := by
  induction h with
  | nil => exact fun o ho => absurd ho List.not_mem_nil
  | flag hc _ ih => exact List.forall_mem_cons.2 ⟨.inl hc, ih⟩
  | attached hc _ => exact List.forall_mem_singleton.2 (.inl hc)
  | separate hc => exact List.forall_mem_singleton.2 (.inl hc)

theorem Spells.fits {options : List Setting} {spelled : List Bytes} (h : Spells t options spelled) :
    ∀ o ∈ options, Fits t o := by
  cases h with
  | short _ h => exact h.fits
  | long _ _ ho hflag => exact List.forall_mem_singleton.2 (.inr ⟨_, _, ho, rfl, hflag⟩)
  | longSeparate _ _ ho harg => exact List.forall_mem_singleton.2 (.inr ⟨_, _, ho, rfl, harg⟩)
  | longAttached _ ho harg => exact List.forall_mem_singleton.2 (.inr ⟨_, _, ho, rfl, harg⟩)

theorem Line.fits {options : List Setting} {operands words : List Bytes}
    (h : Line t options operands words) : ∀ o ∈ options, Fits t o := by
  induction h with
  | operand _ _ _ ih => exact ih
  | option hs _ ih => exact List.forall_mem_append.2 ⟨hs.fits, ih⟩
  | _ => exact fun o ho => absurd ho List.not_mem_nil

theorem findShort_mem {optstring : Bytes} {c : UInt8} {takesArg : Bool}
    (h : findShort optstring c = some takesArg) : c ∈ optstring := by
  induction optstring with
  | nil => cases h
  | cons x rest ih =>
    rw [findShort] at h
    split_ifs at h with hx
    · exact hx ▸ List.mem_cons_self
    · exact List.mem_cons_of_mem _ (ih h)

theorem short_mem {c : UInt8} {takesArg : Bool} (h : t.short c = some takesArg) :
    c ∈ t.optstring := by
  unfold Table.short at h
  split_ifs at h
  exact findShort_mem h

theorem long_mem {name : Bytes} {l : LongOption} (h : t.long name = some l) :
    l ∈ t.longOptions := by
  unfold Table.long at h
  split at h
  · next o ho =>
    obtain rfl := Option.some.inj h
    exact List.mem_of_find?_eq_some ho
  · split at h
    · cases h
    · next o os ho =>
      split_ifs at h
      obtain rfl := Option.some.inj h
      have hmem : o ∈ t.longOptions.filter fun o => name.isPrefixOf o.name :=
        ho ▸ List.mem_cons_self
      exact (List.mem_filter.1 hmem).1

end Accepting

end OptionScan
