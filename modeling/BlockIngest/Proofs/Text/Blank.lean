import BlockIngest.Text.Blank
import Mathlib.Data.List.TakeWhile
import Mathlib.Data.Nat.Notation

/-!
# Texts between blanks

A text that may stand between blanks is trimmed before it is read.  What trimming gives is
the one text without blanks at its ends that the given text holds between blanks.  So a
reader that trims accepts a text just if it would accept what stands in it between blanks.

## Main definitions

* `Text.Between` — a text that stands between blanks.
* `Text.Bare` — a text without blanks at its ends.

## Main results

* `Text.trimList_eq_iff` — **what trimming gives.**
* `Text.trim_trim`, `Text.trimList_eq_nil_iff` — trimming twice, and trimming blanks alone.
-/

namespace BlockIngest
namespace Text

/-- Nothing but blanks. -/
def Blank (cs : List Char) : Prop := ∀ c ∈ cs, isBlank c

/-- `text` is `core` between blanks, if there are any. -/
def Between (core text : List Char) : Prop :=
  ∃ before after, Blank before ∧ Blank after ∧ text = before ++ core ++ after

/-- No blank stands at either end. -/
def Bare (core : List Char) : Prop :=
  (∀ c ∈ core.head?, ¬ isBlank c) ∧ ∀ c ∈ core.getLast?, ¬ isBlank c

variable {core text cs : List Char}

theorem Between.refl (core : List Char) : Between core core :=
  ⟨[], [], by simp [Blank], by simp [Blank], by simp⟩

theorem bare_of_forall (h : ∀ c ∈ core, ¬ isBlank c) : Bare core :=
  ⟨fun c hc => h c (List.mem_of_mem_head? hc), fun c hc => h c (List.mem_of_mem_getLast? hc)⟩

/-! ### Blanks are dropped -/

theorem dropWhile_of_head (h : ∀ c ∈ cs.head?, ¬ isBlank c) : cs.dropWhile isBlank = cs := by
  cases cs with
  | nil => rfl
  | cons c cs => exact List.dropWhile_cons_of_neg (h c rfl)

theorem head_dropWhile (cs : List Char) : ∀ c ∈ (cs.dropWhile isBlank).head?, ¬ isBlank c := by
  intro c hc
  have hnot := cs.head?_dropWhile_not isBlank
  rw [Option.mem_def.mp hc] at hnot
  simp [hnot]

/-- Blanks are dropped up to the first sign that is none. -/
theorem exists_dropWhile_blank (cs : List Char) :
    ∃ before, Blank before ∧ cs = before ++ cs.dropWhile isBlank := by
  refine ⟨cs.takeWhile isBlank, ?_, List.takeWhile_append_dropWhile.symm⟩
  intro c hc
  exact List.mem_takeWhile_imp hc

/-! ### Trimming -/

/-- What stands between blanks is found if it has none at its ends. -/
theorem trimList_of_between (hbare : Bare core) (h : Between core text) :
    trimList text = core := by
  obtain ⟨before, after, hbefore, hafter, rfl⟩ := h
  unfold trimList
  rw [List.append_assoc, List.dropWhile_append_of_pos hbefore]
  cases core with
  | nil =>
    rw [List.nil_append, List.dropWhile_eq_nil_iff.mpr hafter]
    rfl
  | cons c cs =>
    have hfront : (c :: cs ++ after).dropWhile isBlank = c :: cs ++ after :=
      dropWhile_of_head fun d hd => hbare.1 d hd
    have hbehind : Blank after.reverse := fun d hd => hafter d (List.mem_reverse.mp hd)
    have hlast : (c :: cs).reverse.dropWhile isBlank = (c :: cs).reverse := by
      refine dropWhile_of_head fun d hd => hbare.2 d ?_
      rwa [List.head?_reverse] at hd
    rw [hfront, List.reverse_append, List.dropWhile_append_of_pos hbehind, hlast,
      List.reverse_reverse]

/-- What trimming gives stands between blanks. -/
theorem between_trimList (text : List Char) : Between (trimList text) text := by
  obtain ⟨before, hbefore, htext⟩ := exists_dropWhile_blank text
  obtain ⟨after, hafter, hrest⟩ := exists_dropWhile_blank (text.dropWhile isBlank).reverse
  refine ⟨before, after.reverse, hbefore, fun c hc => hafter c (List.mem_reverse.mp hc), ?_⟩
  have hback := congrArg List.reverse hrest
  rw [List.reverse_reverse, List.reverse_append] at hback
  unfold trimList
  rw [List.append_assoc, ← hback]
  exact htext

theorem bare_trimList (text : List Char) : Bare (trimList text) := by
  have hlast := head_dropWhile (text.dropWhile isBlank).reverse
  have hfirst := head_dropWhile text
  obtain ⟨after, -, hrest⟩ := exists_dropWhile_blank (text.dropWhile isBlank).reverse
  have hback := congrArg List.reverse hrest
  rw [List.reverse_reverse, List.reverse_append] at hback
  constructor
  · -- it begins as the text does behind its first blanks
    intro c hc
    refine hfirst c ?_
    rw [hback]
    show (trimList text ++ after.reverse).head? = some c
    rw [List.head?_append, Option.mem_def.mp hc]
    rfl
  · intro c hc
    refine hlast c ?_
    unfold trimList at hc
    rwa [List.getLast?_reverse] at hc

/-- **What trimming gives** is the one text without blanks at its ends that stands between
blanks. -/
theorem trimList_eq_iff : trimList text = core ↔ Bare core ∧ Between core text := by
  constructor
  · rintro rfl
    exact ⟨bare_trimList text, between_trimList text⟩
  · rintro ⟨hbare, h⟩
    exact trimList_of_between hbare h

/-! ### Trimmed texts -/

theorem trimList_trimList (cs : List Char) : trimList (trimList cs) = trimList cs :=
  trimList_eq_iff.mpr ⟨bare_trimList cs, .refl _⟩

@[simp] theorem toList_trim (s : String) : (trim s).toList = trimList s.toList :=
  String.toList_ofList

@[simp] theorem trim_trim (s : String) : trim (trim s) = trim s :=
  String.toList_inj.mp (by rw [toList_trim, toList_trim, trimList_trimList])

/-- Nothing is left of a text just if it is nothing but blanks. -/
theorem trimList_eq_nil_iff {cs : List Char} : trimList cs = [] ↔ Blank cs := by
  rw [trimList_eq_iff]
  constructor
  · rintro ⟨-, before, after, hbefore, hafter, rfl⟩ c hc
    rw [List.append_nil, List.mem_append] at hc
    exact hc.elim (hbefore c) (hafter c)
  · intro hblank
    exact ⟨⟨by simp, by simp⟩, cs, [], hblank, by simp [Blank], by simp⟩

end Text
end BlockIngest
