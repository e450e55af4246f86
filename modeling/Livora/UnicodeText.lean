import Mathlib.Data.List.Chain
import Mathlib.Data.List.DropRight
import Mathlib.Tactic.Common

/-! The functions of strings that go by the tables of Unicode: canonical decomposition, upper
case, trimming. The tables are a parameter, with the facts about them that the functions
rest on. A text that is decomposed, without accents, in upper case and trimmed stays as it is. -/

namespace Livora.UnicodeText

/-- The combining marks of the block U+0300–U+036F. -/
def isMark (c : Char) : Bool := decide (0x300 ≤ c.toNat) && decide (c.toNat ≤ 0x36F)

/-- The combining grapheme joiner, the only one of them that keeps the marks beside it apart. -/
def joiner : Char := Char.ofNat 0x34F

/-- The tables, and what is true of each of their entries. -/
structure Tables where
  /-- The full canonical decomposition. -/
  decompose : Char → List Char
  combiningClass : Char → ℕ
  upper : Char → List Char
  whiteSpace : Char → Bool
  decompose_decompose : ∀ c, ∀ d ∈ decompose c, decompose d = [d]
  decompose_joiner : ∀ c, joiner ∈ decompose c → c = joiner
  mark_class : ∀ c, isMark c = true → c ≠ joiner → combiningClass c ≠ 0
  upper_ne_nil : ∀ c, upper c ≠ []
  upper_upper : ∀ c, ∀ d ∈ upper c, upper d = [d]
  upper_whiteSpace : ∀ c, ∀ d ∈ upper c, whiteSpace d = whiteSpace c
  upper_decomposed : ∀ c, isMark c = false → decompose c = [c] →
    ∀ d ∈ upper c, isMark d = false ∧ decompose d = [d]
  upper_starter : ∀ c, isMark c = false → decompose c = [c] → combiningClass c = 0 →
    ∀ d ∈ upper c, combiningClass d = 0
  upper_nonstarter : ∀ c, isMark c = false → decompose c = [c] → combiningClass c ≠ 0 →
    upper c = [c]

namespace Tables

variable (u : Tables)

/-! ### The functions -/

/-- A mark is put behind those of a smaller class. -/
def insert (c : Char) : List Char → List Char
  | [] => [c]
  | d :: rest =>
    if 0 < u.combiningClass d ∧ u.combiningClass d < u.combiningClass c then d :: insert c rest
    else c :: d :: rest

def order : List Char → List Char
  | [] => []
  | c :: rest => u.insert c (order rest)

/-- `text.normalize('NFD')` -/
def nfd (text : List Char) : List Char := u.order (text.flatMap u.decompose)

/-- `text.toUpperCase()` -/
def toUpperCase (text : List Char) : List Char := text.flatMap u.upper

/-- `text.trim()` -/
def trim (text : List Char) : List Char :=
  ((text.dropWhile u.whiteSpace).reverse.dropWhile u.whiteSpace).reverse

/-- `text.replace(/[\u0300-\u036f]/g, '')` -/
def stripMarks (text : List Char) : List Char := text.filter fun c => !isMark c

variable {u} {c d : Char} {l rest : List Char}

/-! ### The canonical order -/

/-- The second character may stand after the first. -/
def InOrder (u : Tables) (c d : Char) : Prop :=
  u.combiningClass d = 0 ∨ u.combiningClass c ≤ u.combiningClass d

def Ordered (u : Tables) (l : List Char) : Prop := l.IsChain u.InOrder

theorem insert_of_ordered (h : u.Ordered (c :: l)) : u.insert c l = c :: l := by
  cases l with
  | nil => rfl
  | cons d rest =>
    have hd : u.InOrder c d := (List.isChain_cons_cons.mp h).1
    rw [insert, if_neg]
    rintro ⟨hpos, hlt⟩
    rcases hd with hzero | hle <;> omega

theorem order_of_ordered (h : u.Ordered l) : u.order l = l := by
  induction l with
  | nil => rfl
  | cons c rest ih => rw [order, ih h.tail, insert_of_ordered h]

theorem mem_insert : d ∈ u.insert c l ↔ d = c ∨ d ∈ l := by
  induction l with
  | nil => simp [insert]
  | cons e rest ih =>
    rw [insert]
    split
    · rw [List.mem_cons, ih, List.mem_cons]
      exact or_left_comm
    · exact List.mem_cons

theorem mem_order : d ∈ u.order l ↔ d ∈ l := by
  induction l with
  | nil => rfl
  | cons c rest ih => rw [order, mem_insert, ih, List.mem_cons]

theorem head?_insert : ∀ e ∈ (u.insert c l).head?, e = c ∨ e ∈ l.head? := by
  intro e he
  cases l with
  | nil => exact .inl (by simpa [insert] using he.symm)
  | cons d rest =>
    rw [insert] at he
    split at he
    · exact .inr he
    · exact .inl (by simpa using he.symm)

theorem ordered_insert (h : u.Ordered l) : u.Ordered (u.insert c l) := by
  induction l with
  | nil => exact List.isChain_singleton c
  | cons d rest ih =>
    rw [insert]
    split
    · rename_i hbefore
      refine (ih h.tail).cons fun e he => ?_
      rcases head?_insert e he with rfl | he
      · exact .inr hbefore.2.le
      · exact h.rel_head? he
    · rename_i hbefore
      refine List.IsChain.cons h fun e he => ?_
      obtain rfl : d = e := by simpa using he
      by_cases hzero : u.combiningClass d = 0
      · exact .inl hzero
      · exact .inr (not_lt.mp fun hlt => hbefore ⟨Nat.pos_of_ne_zero hzero, hlt⟩)

theorem ordered_order : u.Ordered (u.order l) := by
  induction l with
  | nil => exact List.isChain_nil
  | cons c rest ih => exact ordered_insert ih

/-! ### Texts that stay as they are -/

/-- Every character is its own decomposition, and the marks are in order. -/
structure Decomposed (u : Tables) (l : List Char) : Prop where
  chars : ∀ c ∈ l, u.decompose c = [c]
  ordered : u.Ordered l

theorem flatMap_of_singleton {f : Char → List Char} (h : ∀ c ∈ l, f c = [c]) : l.flatMap f = l := by
  induction l with
  | nil => rfl
  | cons c rest ih =>
    rw [List.flatMap_cons, h c List.mem_cons_self, ih fun d hd => h d (List.mem_cons_of_mem _ hd)]
    rfl

theorem nfd_of_decomposed (h : u.Decomposed l) : u.nfd l = l := by
  rw [nfd, flatMap_of_singleton h.chars, order_of_ordered h.ordered]

theorem decomposed_nfd : u.Decomposed (u.nfd l) where
  chars d hd := by
    obtain ⟨c, -, hd⟩ := List.mem_flatMap.mp (mem_order.mp hd)
    exact u.decompose_decompose c d hd
  ordered := ordered_order

theorem joiner_mem_nfd (h : joiner ∈ u.nfd l) : joiner ∈ l := by
  obtain ⟨c, hc, hjoiner⟩ := List.mem_flatMap.mp (mem_order.mp h)
  exact u.decompose_joiner c hjoiner ▸ hc

/-! ### Marks taken off -/

theorem ordered_stripMarks_cons (hjoiner : joiner ∉ l) (h : u.Ordered (c :: l)) :
    u.Ordered (c :: stripMarks l) := by
  induction l generalizing c with
  | nil => exact h
  | cons d rest ih =>
    obtain ⟨hcd, hrest⟩ := List.isChain_cons_cons.mp h
    obtain ⟨hd, hjoiner⟩ := not_or.mp fun hd => hjoiner (List.mem_cons.mpr hd)
    cases hmark : isMark d with
    | false =>
      rw [stripMarks, List.filter_cons_of_pos (by rw [hmark]; rfl)]
      exact List.isChain_cons_cons.mpr ⟨hcd, ih hjoiner hrest⟩
    | true =>
      rw [stripMarks, List.filter_cons_of_neg (by rw [hmark]; exact Bool.false_ne_true)]
      refine ih hjoiner (hrest.imp_head fun {e} hde => ?_)
      have hclass := u.mark_class d hmark (Ne.symm hd)
      rcases hcd with hzero | hle
      · exact absurd hzero hclass
      · exact hde.imp id hle.trans

theorem ordered_stripMarks (hjoiner : joiner ∉ l) (h : u.Ordered l) : u.Ordered (stripMarks l) := by
  induction l with
  | nil => exact h
  | cons c rest ih =>
    have hjoiner : joiner ∉ rest := fun hmem => hjoiner (List.mem_cons_of_mem _ hmem)
    cases hmark : isMark c with
    | false =>
      rw [stripMarks, List.filter_cons_of_pos (by rw [hmark]; rfl)]
      exact ordered_stripMarks_cons hjoiner h
    | true =>
      rw [stripMarks, List.filter_cons_of_neg (by rw [hmark]; exact Bool.false_ne_true)]
      exact ih hjoiner h.tail

theorem isMark_of_mem_stripMarks (h : c ∈ stripMarks l) : isMark c = false := by
  simpa using (List.mem_filter.mp h).2

theorem stripMarks_of_unmarked (h : ∀ c ∈ l, isMark c = false) : stripMarks l = l :=
  List.filter_eq_self.mpr fun c hc => by rw [h c hc]; rfl

/-! ### Upper case -/

theorem ordered_toUpperCase (hmarks : ∀ c ∈ l, isMark c = false) (h : u.Decomposed l) :
    u.Ordered (u.toUpperCase l) := by
  obtain ⟨hchars, hordered⟩ := h
  have hupper {c : Char} (hc : isMark c = false) (hd : u.decompose c = [c]) : u.Ordered
    (u.upper c) := by
    by_cases hzero : u.combiningClass c = 0
    · have hstarters := u.upper_starter c hc hd hzero
      generalize u.upper c = letters at hstarters
      induction letters with
      | nil => exact List.isChain_nil
      | cons d letters ih =>
        refine (ih fun e he => hstarters e (List.mem_cons_of_mem _ he)).cons fun e he => .inl ?_
        exact hstarters e (List.mem_cons_of_mem _ (List.mem_of_mem_head? he))
    · rw [u.upper_nonstarter c hc hd hzero]
      exact List.isChain_singleton c
  induction l with
  | nil => exact List.isChain_nil
  | cons c rest ih =>
    have hc := hmarks c List.mem_cons_self
    have hd := hchars c List.mem_cons_self
    have hrest := ih (fun d hd => hmarks d (List.mem_cons_of_mem _ hd))
      (fun d hd => hchars d (List.mem_cons_of_mem _ hd)) hordered.tail
    rw [toUpperCase, List.flatMap_cons]
    refine List.isChain_append.mpr ⟨hupper hc hd, hrest, fun x hx y hy => ?_⟩
    cases rest with
    | nil => simp at hy
    | cons e rest =>
      have he : isMark e = false := hmarks e (by simp)
      have hde : u.decompose e = [e] := hchars e (by simp)
      have hy : y ∈ (u.upper e).head? := by
        rw [List.flatMap_cons, List.head?_append_of_ne_nil _ (u.upper_ne_nil e)] at hy
        exact hy
      have hx : x ∈ u.upper c := List.mem_of_mem_getLast? hx
      by_cases hzero : u.combiningClass e = 0
      · exact .inl (u.upper_starter e he hde hzero y (List.mem_of_mem_head? hy))
      · rw [u.upper_nonstarter e he hde hzero] at hy
        obtain rfl : e = y := by simpa using hy
        have hce : u.combiningClass c ≤ u.combiningClass e :=
          ((List.isChain_cons_cons.mp hordered).1).resolve_left hzero
        by_cases hstarter : u.combiningClass c = 0
        · exact .inr (by rw [u.upper_starter c hc hd hstarter x hx]; exact Nat.zero_le _)
        · rw [u.upper_nonstarter c hc hd hstarter, List.mem_singleton] at hx
          exact .inr (hx ▸ hce)

theorem decomposed_toUpperCase (hmarks : ∀ c ∈ l, isMark c = false) (h : u.Decomposed l) :
    u.Decomposed (u.toUpperCase l) ∧ ∀ d ∈ u.toUpperCase l, isMark d = false := by
  refine ⟨⟨fun d hd => ?_, ordered_toUpperCase hmarks h⟩, fun d hd => ?_⟩ <;>
    obtain ⟨c, hc, hd⟩ := List.mem_flatMap.mp hd
  · exact (u.upper_decomposed c (hmarks c hc) (h.chars c hc) d hd).2
  · exact (u.upper_decomposed c (hmarks c hc) (h.chars c hc) d hd).1

theorem upper_of_mem_toUpperCase (h : d ∈ u.toUpperCase l) : u.upper d = [d] := by
  obtain ⟨c, -, hd⟩ := List.mem_flatMap.mp h
  exact u.upper_upper c d hd

theorem toUpperCase_toUpperCase : u.toUpperCase (u.toUpperCase l) = u.toUpperCase l :=
  flatMap_of_singleton fun _ hd => upper_of_mem_toUpperCase hd

/-! ### Trimming -/

theorem trim_append (l : List Char) : ∃ before behind, l = before ++ (u.trim l ++ behind) := by
  refine ⟨l.takeWhile u.whiteSpace,
    ((l.dropWhile u.whiteSpace).reverse.takeWhile u.whiteSpace).reverse, ?_⟩
  rw [trim, ← List.reverse_append, List.takeWhile_append_dropWhile, List.reverse_reverse,
    List.takeWhile_append_dropWhile]

theorem mem_of_mem_trim (h : c ∈ u.trim l) : c ∈ l := by
  obtain ⟨before, behind, hl⟩ := u.trim_append l
  rw [hl]
  exact List.mem_append_right _ (List.mem_append_left _ h)

theorem decomposed_trim (h : u.Decomposed l) : u.Decomposed (u.trim l) where
  chars c hc := h.chars c (mem_of_mem_trim hc)
  ordered := by
    obtain ⟨before, behind, hl⟩ := u.trim_append l
    have hall := h.ordered
    rw [hl] at hall
    exact hall.right_of_append.left_of_append

theorem dropWhile_flatMap {f : Char → List Char} (hnil : ∀ c, f c ≠ [])
    (hspace : ∀ c, ∀ d ∈ f c, u.whiteSpace d = u.whiteSpace c) :
    (l.flatMap f).dropWhile u.whiteSpace = (l.dropWhile u.whiteSpace).flatMap f := by
  induction l with
  | nil => rfl
  | cons c rest ih =>
    cases hc : u.whiteSpace c with
    | true =>
      rw [List.dropWhile_cons_of_pos hc, List.flatMap_cons,
        List.dropWhile_append_of_pos fun d hd => (hspace c d hd).trans hc, ih]
    | false =>
      rw [List.dropWhile_cons_of_neg (by rw [hc]; exact Bool.false_ne_true), List.flatMap_cons]
      cases hf : f c with
      | nil => exact absurd hf (hnil c)
      | cons d letters =>
        have hd : u.whiteSpace d = false :=
          (hspace c d (by rw [hf]; exact List.mem_cons_self)).trans hc
        rw [List.cons_append, List.dropWhile_cons_of_neg (by rw [hd]; exact Bool.false_ne_true)]

theorem toUpperCase_trim : u.toUpperCase (u.trim l) = u.trim (u.toUpperCase l) := by
  have hreverse (l : List Char) : (u.toUpperCase l).reverse =
      l.reverse.flatMap fun c => (u.upper c).reverse := by
    rw [toUpperCase, List.reverse_flatMap]
    rfl
  have hfront (l : List Char) : (u.toUpperCase l).dropWhile u.whiteSpace =
      u.toUpperCase (l.dropWhile u.whiteSpace) :=
        dropWhile_flatMap u.upper_ne_nil u.upper_whiteSpace
  rw [trim, trim, hfront, hreverse, dropWhile_flatMap, List.reverse_flatMap]
  · simp [toUpperCase, Function.comp_def]
  · exact fun c h => u.upper_ne_nil c (List.reverse_eq_nil_iff.mp h)
  · exact fun c d hd => u.upper_whiteSpace c d (List.mem_reverse.mp hd)

theorem trim_trim : u.trim (u.trim l) = u.trim l := by
  -- the front of what is trimmed is the front of the text without its blanks
  have hfront : (u.trim l).dropWhile u.whiteSpace = u.trim l := by
    cases htrim : u.trim l with
    | nil => rfl
    | cons c letters =>
      have hsplit := List.takeWhile_append_dropWhile (p := u.whiteSpace)
        (l := (l.dropWhile u.whiteSpace).reverse)
      have hhead : (l.dropWhile u.whiteSpace).head? = some c := by
        rw [← List.reverse_reverse (l.dropWhile u.whiteSpace), ← hsplit, List.reverse_append]
        rw [trim] at htrim
        rw [htrim]
        rfl
      have hblank := List.head?_dropWhile_not u.whiteSpace l
      rw [hhead] at hblank
      exact List.dropWhile_cons_of_neg (by rw [hblank]; exact Bool.false_ne_true)
  rw [trim, hfront]
  rw [trim, List.reverse_reverse, List.dropWhile_idempotent]

/-! ### The whole chain -/

/-- `text.normalize('NFD').replace(/[\u0300-\u036f]/g, '').toUpperCase().trim()` -/
def plain (u : Tables) (text : List Char) : List Char :=
  u.trim (u.toUpperCase (stripMarks (u.nfd text)))

theorem plain_plain (h : joiner ∉ l) : u.plain (u.plain l) = u.plain l := by
  have hstripped : u.Decomposed (stripMarks (u.nfd l)) :=
    ⟨fun c hc => decomposed_nfd.chars c (List.mem_filter.mp hc).1,
      ordered_stripMarks (fun hmem => h (joiner_mem_nfd hmem)) decomposed_nfd.ordered⟩
  obtain ⟨hupper, hunmarked⟩ :=
    decomposed_toUpperCase (fun c hc => isMark_of_mem_stripMarks hc) hstripped
  have hmem {c : Char} (hc : c ∈ u.plain l) : c ∈ u.toUpperCase (stripMarks (u.nfd l)) :=
    mem_of_mem_trim hc
  have hnfd : u.nfd (u.plain l) = u.plain l := nfd_of_decomposed (decomposed_trim hupper)
  have hstrip : stripMarks (u.plain l) = u.plain l := stripMarks_of_unmarked fun c hc =>
    hunmarked c (hmem hc)
  have hcase : u.toUpperCase (u.plain l) = u.plain l :=
    flatMap_of_singleton fun c hc => upper_of_mem_toUpperCase (hmem hc)
  calc u.plain (u.plain l) = u.trim (u.toUpperCase (stripMarks (u.nfd (u.plain l)))) := rfl
    _ = u.trim (u.plain l) := by rw [hnfd, hstrip, hcase]
    _ = u.plain l := trim_trim

end Tables

end Livora.UnicodeText
