import Mathlib.Algebra.Group.Nat.Defs
import Mathlib.Data.List.Basic
import ReactiveScript.Component
import ReactiveScript.Identity

/-!
# What is hashed tells sites apart

The bytes that are hashed for a unit begin with its kind, which has no zero byte in it, and end with
five words of fixed width.  So they can be taken apart again whatever the name of the script is, even
if it has zero bytes.  An id is a kind and the beginning of a hash: units share an id only if they are
of the same kind and their hashes begin alike.

* `Site.preimage_inj` — different kinds or sites are hashed differently.
* `UnitId.ofSite_inj` — what two units with the same id have in common.
-/

set_option autoImplicit false

namespace ReactiveScript

/-! ## Texts and bytes -/

/-- A list can be taken apart at the first place where a certain element stands. -/
theorem append_cons_inj {α : Type} {a : α} {xs ys us vs : List α} (hx : a ∉ xs) (hy : a ∉ ys)
    (h : xs ++ a :: us = ys ++ a :: vs) : xs = ys ∧ us = vs := by
  induction xs generalizing ys with
  | nil =>
    cases ys with
    | nil => exact ⟨rfl, (List.cons.inj h).2⟩
    | cons y ys => exact absurd ((List.cons.inj h).1 ▸ List.mem_cons_self) hy
  | cons x xs ih =>
    cases ys with
    | nil => exact absurd ((List.cons.inj h).1 ▸ List.mem_cons_self) hx
    | cons y ys =>
      obtain ⟨rfl, hrest⟩ := List.cons.inj h
      obtain ⟨rfl, rfl⟩ := ih (fun hmem => hx (List.mem_cons_of_mem _ hmem))
        (fun hmem => hy (List.mem_cons_of_mem _ hmem)) hrest
      exact ⟨rfl, rfl⟩

theorem toList_loop (bs : ByteArray) (i : Nat) (read : List UInt8) :
    ByteArray.toList.loop bs i read = read.reverse ++ bs.data.toList.drop i := by
  fun_induction ByteArray.toList.loop bs i read with
  | case1 i read hlt ih =>
    have hlt' : i < bs.data.toList.length := by simpa using hlt
    rw [ih, List.reverse_cons, List.append_assoc, List.drop_eq_getElem_cons hlt']
    simp [ByteArray.get!, hlt]
  | case2 i read hle =>
    rw [List.drop_eq_nil_of_le (by simpa using hle), List.append_nil]

/-- The bytes of a text determine it. -/
theorem toUTF8_toList_inj {a b : String} (h : a.toUTF8.toList = b.toUTF8.toList) : a = b := by
  have hdata : ∀ s : String, s.toUTF8.toList = s.toUTF8.data.toList := fun s => by
    rw [ByteArray.toList, toList_loop, List.reverse_nil, List.nil_append, List.drop_zero]
  rw [hdata, hdata] at h
  exact String.toByteArray_inj.1 (ByteArray.ext (Array.toList_inj.1 h))

namespace Digest

/-- The higher bytes of a word. -/
theorem toNat_shifted (w : UInt32) : (w >>> 8).toUInt8.toNat = w.toNat / 2 ^ 8 % 2 ^ 8 ∧
    (w >>> 16).toUInt8.toNat = w.toNat / 2 ^ 16 % 2 ^ 8 ∧
    (w >>> 24).toUInt8.toNat = w.toNat / 2 ^ 24 % 2 ^ 8 := by
  simp only [UInt32.toNat_toUInt8, UInt32.toNat_shiftRight]
  exact ⟨congrArg (· % 2 ^ 8) (Nat.shiftRight_eq_div_pow w.toNat 8),
    congrArg (· % 2 ^ 8) (Nat.shiftRight_eq_div_pow w.toNat 16),
    congrArg (· % 2 ^ 8) (Nat.shiftRight_eq_div_pow w.toNat 24)⟩

/-- The bytes of a word determine it. -/
theorem littleEndian_injective : Function.Injective littleEndian := by
  intro a b h
  simp only [littleEndian, List.cons.injEq] at h
  obtain ⟨h0, h1, h2, h3, -⟩ := h
  have h0 := congrArg UInt8.toNat h0
  have h1 := congrArg UInt8.toNat h1
  have h2 := congrArg UInt8.toNat h2
  have h3 := congrArg UInt8.toNat h3
  rw [UInt32.toNat_toUInt8, UInt32.toNat_toUInt8] at h0
  rw [(toNat_shifted a).1, (toNat_shifted b).1] at h1
  rw [(toNat_shifted a).2.1, (toNat_shifted b).2.1] at h2
  rw [(toNat_shifted a).2.2, (toNat_shifted b).2.2] at h3
  have ha := a.toNat_lt
  have hb := b.toNat_lt
  exact UInt32.toNat_inj.1 (by omega)

theorem digitChar_inj {a b : Nat} (ha : a < 16) (hb : b < 16)
    (h : Nat.digitChar a = Nat.digitChar b) : a = b := by
  have hinj : ∀ a b : Fin 16, Nat.digitChar a = Nat.digitChar b → a = b := by decide
  exact Fin.mk.inj (hinj ⟨a, ha⟩ ⟨b, hb⟩ h)

/-- Bytes can be read back from their digits. -/
theorem hex_injective : Function.Injective hex := by
  intro as bs h
  replace h := String.ofList_injective h
  induction as generalizing bs with
  | nil =>
    cases bs with
    | nil => rfl
    | cons b bs => cases h
  | cons a as ih =>
    cases bs with
    | nil => cases h
    | cons b bs =>
      rw [List.flatMap_cons, List.flatMap_cons] at h
      obtain ⟨hbyte, hrest⟩ := List.append_inj h rfl
      obtain ⟨hhigh, hlow⟩ := List.cons.inj hbyte
      have ha := a.toNat_lt
      have hb := b.toNat_lt
      have hhigh := digitChar_inj (by omega) (by omega) hhigh
      have hlow := digitChar_inj (by omega) (by omega) (List.cons.inj hlow).1
      rw [ih hrest, UInt8.toNat_inj.1 (show a.toNat = b.toNat by omega)]

end Digest

namespace Component

/-- The name of a component has no zero byte. -/
theorem zero_not_mem_name (c : Component) : 0 ∉ c.name.toUTF8.toList := by
  cases c <;> decide +kernel

/-- The name of a component has no dash. -/
theorem dash_not_mem_name (c : Component) : '-' ∉ c.name.toList := by
  cases c <;> decide

theorem name_injective : Function.Injective name := by
  intro c c' h
  cases c <;> cases c' <;> first | rfl | exact absurd h (by decide)

end Component

namespace Site

/-- The numbers of the site fit 32 bits. -/
structure Fits (s : Site) : Prop where
  /-- The line of the anchor. -/
  anchor_line : s.anchor.line < 2 ^ 32
  /-- The column of the anchor. -/
  anchor_col : s.anchor.col < 2 ^ 32
  /-- The line of the call. -/
  call_line : s.call.line < 2 ^ 32
  /-- The column of the call. -/
  call_col : s.call.col < 2 ^ 32
  /-- The number of units before. -/
  occurrence : s.occurrence < 2 ^ 32

theorem word_inj {n m : Nat} (hn : n < 2 ^ 32) (hm : m < 2 ^ 32) (h : word n = word m) : n = m := by
  have heq := congrArg UInt32.toNat (Digest.littleEndian_injective h)
  rwa [UInt32.toNat_ofNat_of_lt' hn, UInt32.toNat_ofNat_of_lt' hm] at heq

/-- **Different kinds or sites are hashed differently**, whatever the name of the script is. -/
theorem preimage_inj {c c' : Component} {s s' : Site} (hs : s.Fits) (hs' : s'.Fits)
    (h : s.preimage c.name = s'.preimage c'.name) : c = c' ∧ s = s' := by
  have hlength : ∀ n, (word n).length = 4 := fun _ => rfl
  rw [preimage, preimage] at h
  obtain ⟨htexts, hnumbers⟩ := List.append_inj' h (by simp [hlength])
  obtain ⟨hkind, hfile⟩ := append_cons_inj (Component.zero_not_mem_name c)
    (Component.zero_not_mem_name c') htexts
  have hnumbers := (List.cons.inj hnumbers).2
  obtain ⟨hnumbers, hoccurrence⟩ := List.append_inj' hnumbers rfl
  obtain ⟨hnumbers, hcallCol⟩ := List.append_inj' hnumbers rfl
  obtain ⟨hnumbers, hcallLine⟩ := List.append_inj' hnumbers rfl
  obtain ⟨hanchorLine, hanchorCol⟩ := List.append_inj' hnumbers rfl
  refine ⟨Component.name_injective (toUTF8_toList_inj hkind), ?_⟩
  obtain ⟨file, ⟨anchorLine, anchorCol⟩, ⟨callLine, callCol⟩, occurrence⟩ := s
  obtain ⟨file', ⟨anchorLine', anchorCol'⟩, ⟨callLine', callCol'⟩, occurrence'⟩ := s'
  obtain rfl := toUTF8_toList_inj hfile
  obtain rfl := word_inj hs.anchor_line hs'.anchor_line hanchorLine
  obtain rfl := word_inj hs.anchor_col hs'.anchor_col hanchorCol
  obtain rfl := word_inj hs.call_line hs'.call_line hcallLine
  obtain rfl := word_inj hs.call_col hs'.call_col hcallCol
  obtain rfl := word_inj hs.occurrence hs'.occurrence hoccurrence
  rfl

end Site

/-- **Units that share an id are of the same kind, and their hashes begin alike.** -/
theorem UnitId.ofSite_inj {c c' : Component} {s s' : Site}
    (h : UnitId.ofSite c.name s = UnitId.ofSite c'.name s') :
    c = c' ∧
      (Digest.hash (s.preimage c.name)).take 4 = (Digest.hash (s'.preimage c'.name)).take 4 := by
  have htext := congrArg (fun id => id.text.toList) h
  simp only [UnitId.ofSite, String.toList_append] at htext
  have hdash : ("-" : String).toList = ['-'] := rfl
  rw [hdash, List.append_assoc, List.append_assoc] at htext
  obtain ⟨hkind, hhex⟩ := append_cons_inj (Component.dash_not_mem_name c)
    (Component.dash_not_mem_name c') htext
  exact ⟨Component.name_injective (String.toList_injective hkind),
    Digest.hex_injective (String.toList_injective hhex)⟩

end ReactiveScript
