import Salt.ByteStrings
import Mathlib.Tactic.Common

set_option autoImplicit false

/-!
# JSON texts

The grammar of RFC 8259 as a derivation relation between byte strings and
values, and a decoder that computes the value. The decoder reads every
derivation, so a text has at most one value and every conforming decoder reads
the same one. Object members keep their order, and duplicates stay visible.
-/
namespace JsonText
open ByteStrings

inductive Json where
  | null
  | bool (b : Bool)
  | num (lexeme : Bytes)
  | str (value : Bytes)
  | arr (items : List Json)
  | obj (members : List (Bytes × Json))

def isWs (b : UInt8) : Bool := b = 0x20 || b = 0x09 || b = 0x0A || b = 0x0D

def Ws (s : Bytes) : Prop := ∀ b ∈ s, isWs b = true

def isDigit (b : UInt8) : Bool := 48 ≤ b && b ≤ 57

def hexValue (b : UInt8) : Option ℕ :=
  if 48 ≤ b ∧ b ≤ 57 then some (b.toNat - 48)
  else if 97 ≤ b ∧ b ≤ 102 then some (b.toNat - 87)
  else if 65 ≤ b ∧ b ≤ 70 then some (b.toNat - 55)
  else none

def hexUnit (a b c d : UInt8) : Option ℕ := do
  let a ← hexValue a
  let b ← hexValue b
  let c ← hexValue c
  let d ← hexValue d
  return ((a * 16 + b) * 16 + c) * 16 + d

def escapeByte (e : UInt8) : Option UInt8 :=
  if e = 34 ∨ e = 92 ∨ e = 47 then some e
  else if e = 98 then some 8
  else if e = 102 then some 12
  else if e = 110 then some 10
  else if e = 114 then some 13
  else if e = 116 then some 9
  else none

/-- One character of a string body: a byte, or the UTF-16 unit of a `\u` escape. -/
inductive Piece where
  | byte (b : UInt8)
  | unit (u : ℕ)

def codePointBytes (n : ℕ) : Bytes :=
  if n ≤ 0x7f then [UInt8.ofNat n]
  else if n ≤ 0x7ff then [UInt8.ofNat (n / 64 + 0xc0), UInt8.ofNat (n % 64 + 0x80)]
  else if n ≤ 0xffff then
    [UInt8.ofNat (n / 4096 + 0xe0), UInt8.ofNat (n / 64 % 64 + 0x80), UInt8.ofNat (n % 64 + 0x80)]
  else
    [UInt8.ofNat (n / 262144 + 0xf0), UInt8.ofNat (n / 4096 % 64 + 0x80),
      UInt8.ofNat (n / 64 % 64 + 0x80), UInt8.ofNat (n % 64 + 0x80)]

def isHigh (u : ℕ) : Bool := 0xD800 ≤ u && u < 0xDC00
def isLow (u : ℕ) : Bool := 0xDC00 ≤ u && u < 0xE000

/-- The UTF-8 value of a string body; two units of a surrogate pair are one character. -/
def pieceBytes : List Piece → Bytes
  | [] => []
  | .byte b :: ps => b :: pieceBytes ps
  | .unit u :: .unit v :: ps =>
    if isHigh u && isLow v then
      codePointBytes (0x10000 + (u - 0xD800) * 0x400 + (v - 0xDC00)) ++ pieceBytes ps
    else codePointBytes u ++ pieceBytes (.unit v :: ps)
  | .unit u :: ps => codePointBytes u ++ pieceBytes ps

inductive StringBody : Bytes → List Piece → Prop where
  | nil : StringBody [] []
  | plain {b : UInt8} {raw : Bytes} {ps : List Piece} (low : 0x20 ≤ b) (quote : b ≠ 34)
      (slash : b ≠ 92) (tail : StringBody raw ps) : StringBody (b :: raw) (.byte b :: ps)
  | escape {e d : UInt8} {raw : Bytes} {ps : List Piece} (named : escapeByte e = some d)
      (tail : StringBody raw ps) : StringBody (92 :: e :: raw) (.byte d :: ps)
  | unicode {a b c d : UInt8} {u : ℕ} {raw : Bytes} {ps : List Piece}
      (hex : hexUnit a b c d = some u) (tail : StringBody raw ps) :
      StringBody (92 :: 117 :: a :: b :: c :: d :: raw) (.unit u :: ps)

def isNumberChar (b : UInt8) : Bool :=
  isDigit b || b = 43 || b = 45 || b = 46 || b = 69 || b = 101

def isExponent : Bytes → Bool
  | [] => true
  | e :: rest =>
    let digits := match rest with
      | s :: ds => if s = 43 || s = 45 then ds else rest
      | [] => []
    (e = 69 || e = 101) && !digits.isEmpty && digits.all isDigit

def isFraction : Bytes → Bool
  | [] => true
  | p :: rest =>
    if p = 46 then !(rest.takeWhile isDigit).isEmpty && isExponent (rest.dropWhile isDigit)
    else isExponent (p :: rest)

def isUnsigned (s : Bytes) : Bool :=
  let int := s.takeWhile isDigit
  (int = [48] || int.head?.any (· ≠ 48)) && isFraction (s.dropWhile isDigit)

def isNumber (s : Bytes) : Bool :=
  !s.isEmpty && s.all isNumberChar && isUnsigned (if s.head? = some 45 then s.tail else s)

inductive Phrase where
  | value (v : Json)
  | items (vs : List Json)
  | members (ms : List (Bytes × Json))

/-- `items` and `members` are the non-empty comma-separated lists inside the brackets. -/
inductive Derives : Bytes → Phrase → Prop where
  | null : Derives (ascii "null") (.value .null)
  | true : Derives (ascii "true") (.value (.bool true))
  | false : Derives (ascii "false") (.value (.bool false))
  | num {s : Bytes} (h : isNumber s = Bool.true) : Derives s (.value (.num s))
  | str {raw : Bytes} {ps : List Piece} (h : StringBody raw ps) :
      Derives (34 :: (raw ++ [34])) (.value (.str (pieceBytes ps)))
  | arrEmpty {w : Bytes} (h : Ws w) : Derives (91 :: (w ++ [93])) (.value (.arr []))
  | arr {s : Bytes} {vs : List Json} (h : Derives s (.items vs)) :
      Derives (91 :: (s ++ [93])) (.value (.arr vs))
  | objEmpty {w : Bytes} (h : Ws w) : Derives (123 :: (w ++ [125])) (.value (.obj []))
  | obj {s : Bytes} {ms : List (Bytes × Json)} (h : Derives s (.members ms)) :
      Derives (123 :: (s ++ [125])) (.value (.obj ms))
  | itemLast {a s b : Bytes} {v : Json} (ha : Ws a) (h : Derives s (.value v)) (hb : Ws b) :
      Derives (a ++ (s ++ b)) (.items [v])
  | itemMore {a s b t : Bytes} {v : Json} {vs : List Json} (ha : Ws a)
      (h : Derives s (.value v)) (hb : Ws b) (ht : Derives t (.items vs)) :
      Derives (a ++ (s ++ (b ++ 44 :: t))) (.items (v :: vs))
  | memberLast {a raw b c s d : Bytes} {ps : List Piece} {v : Json} (ha : Ws a)
      (hn : StringBody raw ps) (hb : Ws b) (hc : Ws c) (h : Derives s (.value v)) (hd : Ws d) :
      Derives (a ++ 34 :: (raw ++ 34 :: (b ++ 58 :: (c ++ (s ++ d)))))
        (.members [(pieceBytes ps, v)])
  | memberMore {a raw b c s d t : Bytes} {ps : List Piece} {v : Json}
      {ms : List (Bytes × Json)} (ha : Ws a) (hn : StringBody raw ps) (hb : Ws b) (hc : Ws c)
      (h : Derives s (.value v)) (hd : Ws d) (ht : Derives t (.members ms)) :
      Derives (a ++ 34 :: (raw ++ 34 :: (b ++ 58 :: (c ++ (s ++ (d ++ 44 :: t))))))
        (.members ((pieceBytes ps, v) :: ms))

def Text (s : Bytes) (v : Json) : Prop :=
  ∃ a t b, Ws a ∧ Derives t (.value v) ∧ Ws b ∧ s = a ++ (t ++ b)

def skipWs (s : Bytes) : Bytes := s.dropWhile isWs

def readString : Bytes → Option (List Piece × Bytes)
  | [] => none
  | b :: rest =>
    if b = 34 then some ([], rest)
    else if b = 92 then
      match rest with
      | [] => none
      | e :: rest =>
        if e = 117 then
          match rest with
          | a :: b :: c :: d :: rest =>
            (hexUnit a b c d).bind fun u => (readString rest).map fun p => (.unit u :: p.1, p.2)
          | _ => none
        else (escapeByte e).bind fun x => (readString rest).map fun p => (.byte x :: p.1, p.2)
    else if b < 0x20 then none
    else (readString rest).map fun p => (.byte b :: p.1, p.2)

def readLiteral (s : Bytes) : Option (Json × Bytes) :=
  if (ascii "null").isPrefixOf s then some (.null, s.drop 4)
  else if (ascii "true").isPrefixOf s then some (.bool true, s.drop 4)
  else if (ascii "false").isPrefixOf s then some (.bool false, s.drop 5)
  else none

def readNumber (s : Bytes) : Option (Json × Bytes) :=
  let lexeme := s.takeWhile isNumberChar
  if isNumber lexeme then some (.num lexeme, s.drop lexeme.length) else none

mutual

def readValue : ℕ → Bytes → Option (Json × Bytes)
  | 0, _ => none
  | _ + 1, [] => none
  | fuel + 1, b :: rest =>
    if b = 34 then (readString rest).map fun p => (.str (pieceBytes p.1), p.2)
    else if b = 91 then
      if (skipWs rest).head? = some 93 then some (.arr [], (skipWs rest).tail)
      else (readItems fuel rest).map fun p => (.arr p.1, p.2)
    else if b = 123 then
      if (skipWs rest).head? = some 125 then some (.obj [], (skipWs rest).tail)
      else (readMembers fuel rest).map fun p => (.obj p.1, p.2)
    else if b = 110 ∨ b = 116 ∨ b = 102 then readLiteral (b :: rest)
    else readNumber (b :: rest)

def readItems : ℕ → Bytes → Option (List Json × Bytes)
  | 0, _ => none
  | fuel + 1, s =>
    (readValue fuel (skipWs s)).bind fun p =>
      match skipWs p.2 with
      | [] => none
      | b :: rest =>
        if b = 44 then (readItems fuel rest).map fun q => (p.1 :: q.1, q.2)
        else if b = 93 then some ([p.1], rest)
        else none

def readMembers : ℕ → Bytes → Option (List (Bytes × Json) × Bytes)
  | 0, _ => none
  | fuel + 1, s =>
    if (skipWs s).head? ≠ some 34 then none
    else (readString (skipWs s).tail).bind fun n =>
      if (skipWs n.2).head? ≠ some 58 then none
      else (readValue fuel (skipWs (skipWs n.2).tail)).bind fun p =>
        match skipWs p.2 with
        | [] => none
        | b :: rest =>
          if b = 44 then
            (readMembers fuel rest).map fun q => ((pieceBytes n.1, p.1) :: q.1, q.2)
          else if b = 125 then some ([(pieceBytes n.1, p.1)], rest)
          else none

end

def decode (s : Bytes) : Option Json :=
  (readValue (s.length + 1) (skipWs s)).bind fun p => if skipWs p.2 = [] then some p.1 else none

theorem readString_body {raw : Bytes} {ps : List Piece} (h : StringBody raw ps) (rest : Bytes) :
    readString (raw ++ 34 :: rest) = some (ps, rest) := by
  induction h with
  | nil =>
    rw [List.nil_append, readString.eq_def]
    rfl
  | plain low quote slash tail ih =>
    rw [List.cons_append, readString.eq_def]
    simp only [if_neg quote, if_neg slash, if_neg (UInt8.not_lt.2 low), ih, Option.map_some]
  | @escape e d raw ps named tail ih =>
    have he : e ≠ 117 := by
      rintro rfl
      simp [escapeByte] at named
    rw [List.cons_append, List.cons_append, readString.eq_def]
    simp only [if_neg he, named, ih, Option.map_some, Option.bind_some]
    rfl
  | unicode hex tail ih =>
    simp only [List.cons_append]
    rw [readString.eq_def]
    simp only [hex, ih, Option.map_some, Option.bind_some]
    rfl

/-- No number continues into `rest`. -/
def Stops (rest : Bytes) : Prop := ∀ b ∈ rest.head?, isNumberChar b = false

/-- After white space the phrase begins with a character other than `close`. -/
def Opens (close : UInt8) (s : Bytes) : Prop :=
  ∀ rest, ∃ b t, skipWs (s ++ rest) = b :: t ∧ b ≠ close

def Reads : Phrase → Bytes → Prop
  | .value v, s => (∃ b t, s = b :: t ∧ isWs b = false ∧ b ≠ 93) ∧
      ∀ fuel rest, s.length ≤ fuel → Stops rest → readValue fuel (s ++ rest) = some (v, rest)
  | .items vs, s => Opens 93 s ∧
      ∀ fuel rest, s.length < fuel → readItems fuel (s ++ 93 :: rest) = some (vs, rest)
  | .members ms, s => Opens 125 s ∧
      ∀ fuel rest, s.length < fuel → readMembers fuel (s ++ 125 :: rest) = some (ms, rest)

theorem skipWs_append {w s : Bytes} (hw : Ws w) : skipWs (w ++ s) = skipWs s :=
  List.dropWhile_append_of_pos hw

theorem skipWs_cons {b : UInt8} (h : isWs b = false) (s : Bytes) : skipWs (b :: s) = b :: s :=
  List.dropWhile_cons_of_neg (by simp [h])

theorem isNumber_chars {s : Bytes} (h : isNumber s = true) :
    s ≠ [] ∧ ∀ b ∈ s, isNumberChar b = true := by
  simp only [isNumber, Bool.and_eq_true, List.all_eq_true, Bool.not_eq_true',
    List.isEmpty_eq_false_iff] at h
  exact ⟨h.1.1, h.1.2⟩

theorem readNumber_append {s rest : Bytes} (h : isNumber s = true) (hrest : Stops rest) :
    readNumber (s ++ rest) = some (.num s, rest) := by
  have htake : (s ++ rest).takeWhile isNumberChar = s := by
    rw [List.takeWhile_append_of_pos (isNumber_chars h).2]
    cases rest with
    | nil => simp
    | cons b rest => simp [hrest b (by simp)]
  rw [readNumber, htake]
  simp [h]

theorem stops_cons {b : UInt8} (h : isNumberChar b = false) (s : Bytes) : Stops (b :: s) := by
  intro c hc
  obtain rfl : b = c := by simpa using hc
  exact h

theorem stops_ws {w : Bytes} (hw : Ws w) {s : Bytes} (hs : Stops s) : Stops (w ++ s) := by
  cases w with
  | nil => exact hs
  | cons b w =>
    have hb := hw b (by simp)
    apply stops_cons
    simp only [isWs, Bool.or_eq_true, decide_eq_true_eq] at hb
    rcases hb with ((rfl | rfl) | rfl) | rfl <;> decide

theorem numberChar_other {b : UInt8} (h : isNumberChar b = true) :
    isWs b = false ∧ b ∉ ([34, 91, 123, 110, 116, 102, 93] : Bytes) := by
  simp only [isNumberChar, isDigit, Bool.or_eq_true, Bool.and_eq_true, decide_eq_true_eq,
    UInt8.le_iff_toNat_le, ← UInt8.toNat_inj, UInt8.reduceToNat] at h
  simp only [isWs, Bool.or_eq_false_iff, decide_eq_false_iff_not, List.mem_cons,
    List.not_mem_nil, or_false, ← UInt8.toNat_inj, UInt8.reduceToNat]
  omega

theorem skipWs_ws_cons {w : Bytes} (hw : Ws w) {b : UInt8} (hb : isWs b = false) (s : Bytes) :
    skipWs (w ++ b :: s) = b :: s := by
  rw [skipWs_append hw, skipWs_cons hb]

theorem opens_ws_cons {a : Bytes} (ha : Ws a) {x close : UInt8} (hx : isWs x = false)
    (hne : x ≠ close) (s : Bytes) : Opens close (a ++ x :: s) := by
  intro rest
  refine ⟨x, s ++ rest, ?_, hne⟩
  rw [List.append_assoc, List.cons_append, skipWs_ws_cons ha hx]

theorem fuel_cons {b : UInt8} {s : Bytes} {fuel : ℕ} (h : (b :: s).length ≤ fuel) :
    ∃ f, fuel = f + 1 ∧ s.length ≤ f :=
  ⟨fuel - 1, by rw [List.length_cons] at h; omega, by rw [List.length_cons] at h; omega⟩

theorem readItems_value {f : ℕ} {a s r rest : Bytes} {x c : UInt8} {v : Json} (ha : Ws a)
    (hx : isWs x = false) (hread : readValue f (x :: s ++ r) = some (v, r))
    (hskip : skipWs r = c :: rest) :
    readItems (f + 1) (a ++ x :: (s ++ r)) =
      if c = 44 then (readItems f rest).map fun q => (v :: q.1, q.2)
      else if c = 93 then some ([v], rest)
      else none := by
  rw [readItems, skipWs_ws_cons ha hx, ← List.cons_append, hread, Option.bind_some, hskip]

theorem readMembers_member {f : ℕ} {a raw b c s r rest : Bytes} {ps : List Piece} {x d : UInt8}
    {v : Json} (ha : Ws a) (hn : StringBody raw ps) (hb : Ws b) (hc : Ws c) (hx : isWs x = false)
    (hread : readValue f (x :: s ++ r) = some (v, r)) (hskip : skipWs r = d :: rest) :
    readMembers (f + 1) (a ++ 34 :: (raw ++ 34 :: (b ++ 58 :: (c ++ x :: (s ++ r))))) =
      if d = 44 then (readMembers f rest).map fun q => ((pieceBytes ps, v) :: q.1, q.2)
      else if d = 125 then some ([(pieceBytes ps, v)], rest)
      else none := by
  rw [readMembers, skipWs_ws_cons ha (by decide), if_neg (by simp), List.tail_cons,
    readString_body hn, Option.bind_some, skipWs_ws_cons hb (by decide), if_neg (by simp),
    List.tail_cons, skipWs_ws_cons hc hx, ← List.cons_append, hread, Option.bind_some, hskip]

/-- The decoder reads every phrase the grammar derives and stops right after it. -/
theorem reads_of_derives {s : Bytes} {p : Phrase} (h : Derives s p) : Reads p s := by
  -- what follows a value in an array or an object stops a number
  have hstops {b r : Bytes} {c : UInt8} (hb : Ws b) (hc : isNumberChar c = false) :
      Stops (b ++ c :: r) := stops_ws hb (stops_cons hc r)
  induction h with
  | null =>
    refine ⟨⟨110, ascii "ull", rfl, by decide⟩, fun fuel rest hf _ => ?_⟩
    obtain ⟨f, rfl, -⟩ := fuel_cons hf
    rfl
  | true =>
    refine ⟨⟨116, ascii "rue", rfl, by decide⟩, fun fuel rest hf _ => ?_⟩
    obtain ⟨f, rfl, -⟩ := fuel_cons hf
    rfl
  | false =>
    refine ⟨⟨102, ascii "alse", rfl, by decide⟩, fun fuel rest hf _ => ?_⟩
    obtain ⟨f, rfl, -⟩ := fuel_cons hf
    rfl
  | @num s h =>
    obtain ⟨hne, hall⟩ := isNumber_chars h
    obtain ⟨b, t, rfl⟩ := List.exists_cons_of_ne_nil hne
    obtain ⟨hws, hother⟩ := numberChar_other (hall b (by simp))
    refine ⟨⟨b, t, rfl, hws, by rintro rfl; simp at hother⟩, fun fuel rest hf hrest => ?_⟩
    obtain ⟨f, rfl, -⟩ := fuel_cons hf
    simp only [List.mem_cons, List.not_mem_nil, or_false, not_or] at hother
    rw [List.cons_append, readValue, if_neg hother.1, if_neg hother.2.1, if_neg hother.2.2.1,
      if_neg (by tauto), ← List.cons_append, readNumber_append h hrest]
  | @str raw ps h =>
    refine ⟨⟨34, raw ++ [34], rfl, by decide⟩, fun fuel rest hf _ => ?_⟩
    obtain ⟨f, rfl, -⟩ := fuel_cons hf
    rw [List.cons_append, readValue, if_pos rfl, List.append_assoc, List.singleton_append,
      readString_body h]
    rfl
  | @arrEmpty w h =>
    refine ⟨⟨91, w ++ [93], rfl, by decide⟩, fun fuel rest hf _ => ?_⟩
    obtain ⟨f, rfl, -⟩ := fuel_cons hf
    rw [List.cons_append, readValue, if_neg (by decide), if_pos rfl, List.append_assoc,
      List.singleton_append, skipWs_ws_cons h (by decide), if_pos List.head?_cons]
    rfl
  | @arr s vs h ih =>
    refine ⟨⟨91, s ++ [93], rfl, by decide⟩, fun fuel rest hf _ => ?_⟩
    obtain ⟨f, rfl, hlen⟩ := fuel_cons hf
    obtain ⟨hopen, hread⟩ := ih
    obtain ⟨b, t, hskip, hb⟩ := hopen (93 :: rest)
    rw [List.cons_append, readValue, if_neg (by decide), if_pos rfl, List.append_assoc,
      List.singleton_append, hskip, if_neg (by simpa using hb),
      hread f rest (by simp at hlen; omega)]
    rfl
  | @objEmpty w h =>
    refine ⟨⟨123, w ++ [125], rfl, by decide⟩, fun fuel rest hf _ => ?_⟩
    obtain ⟨f, rfl, -⟩ := fuel_cons hf
    rw [List.cons_append, readValue, if_neg (by decide), if_neg (by decide), if_pos rfl,
      List.append_assoc, List.singleton_append, skipWs_ws_cons h (by decide),
      if_pos List.head?_cons]
    rfl
  | @obj s ms h ih =>
    refine ⟨⟨123, s ++ [125], rfl, by decide⟩, fun fuel rest hf _ => ?_⟩
    obtain ⟨f, rfl, hlen⟩ := fuel_cons hf
    obtain ⟨hopen, hread⟩ := ih
    obtain ⟨b, t, hskip, hb⟩ := hopen (125 :: rest)
    rw [List.cons_append, readValue, if_neg (by decide), if_neg (by decide), if_pos rfl,
      List.append_assoc, List.singleton_append, hskip, if_neg (by simpa using hb),
      hread f rest (by simp at hlen; omega)]
    rfl
  | @itemLast a s b v ha h hb ih =>
    obtain ⟨⟨x, t, rfl, hx, hne⟩, hread⟩ := ih
    refine ⟨opens_ws_cons ha hx hne (t ++ b), fun fuel rest hf => ?_⟩
    obtain ⟨f, rfl⟩ : ∃ f, fuel = f + 1 := ⟨fuel - 1, by omega⟩
    simp only [List.length_append, List.length_cons] at hf
    simp only [List.append_assoc, List.cons_append]
    rw [readItems_value ha hx (hread f (b ++ 93 :: rest) (by rw [List.length_cons]; omega)
      (hstops hb (by decide))) (skipWs_ws_cons hb (by decide) rest)]
    rfl
  | @itemMore a s b t v vs ha h hb ht ih iht =>
    obtain ⟨⟨x, u, rfl, hx, hne⟩, hread⟩ := ih
    refine ⟨opens_ws_cons ha hx hne (u ++ (b ++ 44 :: t)), fun fuel rest hf => ?_⟩
    obtain ⟨f, rfl⟩ : ∃ f, fuel = f + 1 := ⟨fuel - 1, by omega⟩
    simp only [List.length_append, List.length_cons] at hf
    simp only [List.append_assoc, List.cons_append]
    rw [readItems_value ha hx (hread f (b ++ 44 :: (t ++ 93 :: rest))
      (by rw [List.length_cons]; omega) (hstops hb (by decide))) (skipWs_ws_cons hb (by decide) _),
      if_pos rfl, iht.2 f rest (by omega), Option.map_some]
  | @memberLast a raw b c s d ps v ha hn hb hc h hd ih =>
    obtain ⟨⟨x, t, rfl, hx, hne⟩, hread⟩ := ih
    refine ⟨opens_ws_cons ha (by decide) (by decide) _, fun fuel rest hf => ?_⟩
    obtain ⟨f, rfl⟩ : ∃ f, fuel = f + 1 := ⟨fuel - 1, by omega⟩
    simp only [List.length_append, List.length_cons] at hf
    simp only [List.append_assoc, List.cons_append]
    rw [readMembers_member ha hn hb hc hx (hread f (d ++ 125 :: rest)
      (by rw [List.length_cons]; omega) (hstops hd (by decide))) (skipWs_ws_cons hd (by decide) rest)]
    rfl
  | @memberMore a raw b c s d t ps v ms ha hn hb hc h hd ht ih iht =>
    obtain ⟨⟨x, u, rfl, hx, hne⟩, hread⟩ := ih
    refine ⟨opens_ws_cons ha (by decide) (by decide) _, fun fuel rest hf => ?_⟩
    obtain ⟨f, rfl⟩ : ∃ f, fuel = f + 1 := ⟨fuel - 1, by omega⟩
    simp only [List.length_append, List.length_cons] at hf
    simp only [List.append_assoc, List.cons_append]
    rw [readMembers_member ha hn hb hc hx (hread f (d ++ 44 :: (t ++ 125 :: rest))
      (by rw [List.length_cons]; omega) (hstops hd (by decide))) (skipWs_ws_cons hd (by decide) _),
      if_pos rfl, iht.2 f rest (by omega), Option.map_some]

theorem decode_of_text {s : Bytes} {v : Json} (h : Text s v) : decode s = some v := by
  obtain ⟨a, t, b, ha, ht, hb, rfl⟩ := h
  obtain ⟨⟨x, u, rfl, hx, -⟩, hread⟩ := reads_of_derives ht
  have hskip : skipWs b = [] := by
    rw [← List.append_nil b, skipWs_append hb]
    rfl
  have hstop : Stops b := by
    rw [← List.append_nil b]
    exact stops_ws hb (by simp [Stops])
  rw [decode, skipWs_append ha, List.cons_append, skipWs_cons hx, ← List.cons_append,
    hread _ b (by simp; omega) hstop, Option.bind_some, if_pos hskip]

/-- A text denotes one value: the grammar is unambiguous. -/
theorem text_unique {s : Bytes} {v w : Json} (hv : Text s v) (hw : Text s w) : v = w :=
  Option.some.inj ((decode_of_text hv).symm.trans (decode_of_text hw))

end JsonText
