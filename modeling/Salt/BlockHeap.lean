import Mathlib.Logic.Function.Basic
import Mathlib.Tactic.Common

set_option autoImplicit false

/-!
# Heap blocks and the table of their owners

A block keeps its size, its bytes and the record of what was done to release
it: every wipe with its length, and every free with the bytes it then held. An
owner table maps each owner to the block it holds. `Owned` says that the held
blocks are exactly the live ones, each with one owner, and that every other
block was wiped over its whole length and then freed once.
-/
namespace BlockHeap

inductive BlockEvent where
  | wipe (len : ℕ)
  | free (content : List UInt8)
deriving DecidableEq

structure Block where
  size : ℕ
  bytes : List UInt8
  events : List BlockEvent

abbrev Heap := List Block

def Block.edit (f : List UInt8 → List UInt8) (b : Block) : Block := { b with bytes := f b.bytes }

/-- Zeroes the first `len` bytes. The record keeps a length past the end as it is. -/
def Block.wipe (len : ℕ) (b : Block) : Block :=
  { b with
    bytes := List.replicate (min len b.bytes.length) 0 ++ b.bytes.drop len
    events := b.events ++ [.wipe len] }

def Block.free (b : Block) : Block := { b with events := b.events ++ [.free b.bytes] }

def Block.Live (cap : ℕ) (b : Block) : Prop :=
  b.size = cap ∧ b.bytes.length = cap ∧ 0 < cap ∧ b.events = []

/-- Wiped over exactly its size at least once, then freed once while zero. -/
def Block.Disposed (b : Block) : Prop :=
  ∃ k, b.events = List.replicate (k + 1) (.wipe b.size) ++ [.free (List.replicate b.size 0)]

theorem wipe_all {b : Block} {cap : ℕ} (h : b.bytes.length = cap) :
    b.wipe cap = ⟨b.size, List.replicate cap 0, b.events ++ [.wipe cap]⟩ := by
  subst h
  simp [Block.wipe]

/-- Any positive number of whole wipes followed by a free disposes of a live block. -/
theorem disposed_of_live {b : Block} {cap : ℕ} (h : b.Live cap) :
    (b.wipe cap).free.Disposed ∧ ((b.wipe cap).wipe cap).free.Disposed := by
  obtain ⟨hsize, hlen, _, hev⟩ := h
  rw [wipe_all hlen, wipe_all (by simp)]
  exact ⟨⟨0, by simp [Block.free, hev, hsize]⟩,
    ⟨1, by simp [Block.free, hev, hsize, List.replicate_succ]⟩⟩

structure Owned {ι : Type} (ptr : ι → Option ℕ) (cap : ι → ℕ) (h : Heap) : Prop where
  live : ∀ o id, ptr o = some id → ∃ b, h[id]? = some b ∧ b.Live (cap o)
  single : ∀ o o' id, ptr o = some id → ptr o' = some id → o = o'
  settled : ∀ id b, h[id]? = some b → b.Disposed ∨ ∃ o, ptr o = some id

namespace Owned
variable {ι : Type} {ptr ptr' : ι → Option ℕ} {cap cap' : ι → ℕ} {h : Heap}

theorem bound (hw : Owned ptr cap h) {o : ι} {id : ℕ} (ho : ptr o = some id) : id < h.length := by
  obtain ⟨b, hb, _⟩ := hw.live o id ho
  exact (List.getElem?_eq_some_iff.1 hb).1

theorem congr (hw : Owned ptr cap h) (hp : ptr' = ptr)
    (hc : ∀ o, ptr o ≠ none → cap' o = cap o) : Owned ptr' cap' h where
  live o id ho := by
    subst hp
    rw [hc o (by simp [ho])]
    exact hw.live o id ho
  single := by rw [hp]; exact hw.single
  settled := by rw [hp]; exact hw.settled

theorem all_disposed (hw : Owned ptr cap h) (hp : ∀ o, ptr o = none) :
    ∀ b ∈ h, b.Disposed := by
  intro b hb
  obtain ⟨id, hid⟩ := List.mem_iff_getElem?.1 hb
  rcases hw.settled id b hid with hd | ⟨o, ho⟩
  · exact hd
  · simp [hp o] at ho

theorem append_disposed (hw : Owned ptr cap h) {b : Block} (hb : b.Disposed) :
    Owned ptr cap (h ++ [b]) where
  live o id ho := by
    obtain ⟨c, hc, hlive⟩ := hw.live o id ho
    exact ⟨c, by rw [List.getElem?_append_left (hw.bound ho)]; exact hc, hlive⟩
  single := hw.single
  settled id c hc := by
    rcases Nat.lt_or_ge id h.length with hid | hid
    · rw [List.getElem?_append_left hid] at hc
      exact hw.settled id c hc
    · have hlt := (List.getElem?_eq_some_iff.1 hc).1
      simp only [List.length_append, List.length_singleton] at hlt
      obtain rfl : id = h.length := by omega
      obtain rfl : b = c := by simpa using hc
      exact .inl hb

section Changes
variable [DecidableEq ι]

theorem alloc (hw : Owned ptr cap h) {o : ι} {bytes : List UInt8} {n : ℕ} (ho : ptr o = none)
    (hlen : bytes.length = n) (hpos : 0 < n) :
    Owned (Function.update ptr o (some h.length)) (Function.update cap o n)
      (h ++ [⟨n, bytes, []⟩]) where
  live p id hp := by
    by_cases hpo : p = o
    · subst hpo
      obtain rfl : h.length = id := by simpa using hp
      exact ⟨⟨n, bytes, []⟩, by simp, by simpa [Block.Live] using ⟨hlen, hpos⟩⟩
    · rw [Function.update_of_ne hpo] at hp ⊢
      obtain ⟨b, hb, hlive⟩ := hw.live p id hp
      refine ⟨b, ?_, hlive⟩
      rw [List.getElem?_append_left (hw.bound hp)]
      exact hb
  single p q id hp hq := by
    by_cases hpo : p = o <;> by_cases hqo : q = o
    · exact hpo.trans hqo.symm
    · subst hpo
      rw [Function.update_self] at hp
      rw [Function.update_of_ne hqo] at hq
      have := hw.bound hq
      simp at hp
      omega
    · subst hqo
      rw [Function.update_self] at hq
      rw [Function.update_of_ne hpo] at hp
      have := hw.bound hp
      simp at hq
      omega
    · rw [Function.update_of_ne hpo] at hp
      rw [Function.update_of_ne hqo] at hq
      exact hw.single p q id hp hq
  settled id b hb := by
    rcases Nat.lt_or_ge id h.length with hid | hid
    · rw [List.getElem?_append_left hid] at hb
      rcases hw.settled id b hb with hd | ⟨p, hp⟩
      · exact .inl hd
      · have hpo : p ≠ o := by rintro rfl; simp [ho] at hp
        exact .inr ⟨p, by rw [Function.update_of_ne hpo]; exact hp⟩
    · have hlt := (List.getElem?_eq_some_iff.1 hb).1
      simp only [List.length_append, List.length_singleton] at hlt
      obtain rfl : id = h.length := by omega
      exact .inr ⟨o, by simp⟩

theorem dispose (hw : Owned ptr cap h) {o : ι} {id : ℕ} {f : Block → Block}
    (ho : ptr o = some id) (hf : ∀ b, b.Live (cap o) → (f b).Disposed) :
    Owned (Function.update ptr o none) cap (h.modify id f) where
  live p i hp := by
    have hpo : p ≠ o := by rintro rfl; simp at hp
    rw [Function.update_of_ne hpo] at hp
    have hi : i ≠ id := by rintro rfl; exact hpo (hw.single p o i hp ho)
    obtain ⟨b, hb, hlive⟩ := hw.live p i hp
    exact ⟨b, by rw [List.getElem?_modify_ne _ _ (Ne.symm hi)]; exact hb, hlive⟩
  single p q i hp hq := by
    have hpo : p ≠ o := by rintro rfl; simp at hp
    have hqo : q ≠ o := by rintro rfl; simp at hq
    rw [Function.update_of_ne hpo] at hp
    rw [Function.update_of_ne hqo] at hq
    exact hw.single p q i hp hq
  settled i b hb := by
    by_cases hi : i = id
    · subst hi
      obtain ⟨c, hc, hlive⟩ := hw.live o i ho
      obtain rfl : f c = b := by simpa [hc] using hb
      exact .inl (hf c hlive)
    · rw [List.getElem?_modify_ne _ _ (Ne.symm hi)] at hb
      rcases hw.settled i b hb with hd | ⟨p, hp⟩
      · exact .inl hd
      · have hpo : p ≠ o := by rintro rfl; rw [ho] at hp; exact hi (Option.some.inj hp).symm
        exact .inr ⟨p, by rw [Function.update_of_ne hpo]; exact hp⟩

end Changes
end Owned

def BlockEvent.isFree : BlockEvent → Bool
  | .wipe _ => false
  | .free _ => true

def Block.footprint (b : Block) : ℕ := if b.events.any BlockEvent.isFree then 0 else b.size

def footprint : Heap → ℕ
  | [] => 0
  | b :: h => b.footprint + footprint h

theorem Block.footprint_edit (f : List UInt8 → List UInt8) (b : Block) :
    (b.edit f).footprint = b.footprint := rfl

theorem Block.footprint_wipe (len : ℕ) (b : Block) : (b.wipe len).footprint = b.footprint := by
  simp [Block.footprint, Block.wipe, BlockEvent.isFree]

theorem Block.footprint_free (b : Block) : b.free.footprint = 0 := by
  simp [Block.footprint, Block.free, BlockEvent.isFree]

theorem footprint_append (h h' : Heap) : footprint (h ++ h') = footprint h + footprint h' := by
  induction h with
  | nil => exact (Nat.zero_add _).symm
  | cons b h ih => rw [List.cons_append, footprint, footprint, ih, Nat.add_assoc]

theorem footprint_modify_le {f : Block → Block} (hf : ∀ b, (f b).footprint ≤ b.footprint) (h : Heap)
    (id : ℕ) : footprint (h.modify id f) ≤ footprint h := by
  induction h generalizing id with
  | nil => simp [footprint]
  | cons b h ih =>
    cases id with
    | zero => exact Nat.add_le_add_right (hf b) _
    | succ id => exact Nat.add_le_add_left (ih id) _

end BlockHeap
