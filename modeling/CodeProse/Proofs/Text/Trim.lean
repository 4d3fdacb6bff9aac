/-
# Trimming

Trimming takes the white space off both ends of a text, however much of it there is.
-/
import CodeProse.Text.Blank

namespace CodeProse.Text

open Unicode (isWhitespace)

theorem trimStart_split (t : Text) : t = t.takeWhile isWhitespace ++ trimStart t :=
  List.takeWhile_append_dropWhile.symm

theorem byteLength_trimStart_le (t : Text) : (trimStart t).byteLength ≤ t.byteLength := by
  have h := congrArg byteLength (trimStart_split t)
  rw [byteLength_append] at h
  omega

/-- Trimming takes white space off both ends. -/
theorem trim_split (t : Text) : ∃ lead trail, t = lead ++ trim t ++ trail ∧
    lead.byteLength = t.byteLength - (trimStart t).byteLength ∧
    (∀ c ∈ lead, isWhitespace c = true) ∧ ∀ c ∈ trail, isWhitespace c = true := by
  have hend : trimStart t
      = trim t ++ ((trimStart t).reverse.takeWhile isWhitespace).reverse := by
    rw [trim, trimEnd, ← List.reverse_append, List.takeWhile_append_dropWhile,
      List.reverse_reverse]
  refine ⟨t.takeWhile isWhitespace, ((trimStart t).reverse.takeWhile isWhitespace).reverse, ?_, ?_,
    List.all_eq_true.1 List.all_takeWhile, fun c hc => ?_⟩
  · rw [List.append_assoc, ← hend]
    exact trimStart_split t
  · have := congrArg byteLength (trimStart_split t)
    rw [byteLength_append] at this
    omega
  · exact List.all_eq_true.1 List.all_takeWhile c (List.mem_reverse.1 hc)

theorem trimEnd_prefix (t : Text) : trimEnd t <+: t := by
  have h := List.reverse_prefix.2 (List.dropWhile_suffix (l := t.reverse) isWhitespace)
  rwa [List.reverse_reverse] at h

/-- What trimming leaves begins with no white space. -/
theorem isWhitespace_of_head?_trim {t : Text} {c : Char} (h : (trim t).head? = some c) :
    isWhitespace c = false := by
  obtain ⟨trail, htrail⟩ := trimEnd_prefix (trimStart t)
  have hhead : (trimStart t).head? = some c := by
    rw [← htrail, List.head?_append, ← trim, h, Option.some_or]
  have hstop := List.head?_dropWhile_not isWhitespace t
  rw [trimStart] at hhead
  rw [hhead] at hstop
  exact hstop

/-! ## White space around a text -/

variable {lead trail : Text}

theorem trimStart_of_blank {t : Text} (h : ∀ c ∈ t, isWhitespace c = true) : trimStart t = [] := by
  rw [trimStart, ← List.append_nil t, List.dropWhile_append_of_pos h]
  rfl

theorem trim_of_blank {t : Text} (h : ∀ c ∈ t, isWhitespace c = true) : trim t = [] := by
  rw [trim, trimStart_of_blank h]
  rfl

theorem trimEnd_append_of_blank (t : Text) (h : ∀ c ∈ trail, isWhitespace c = true) :
    trimEnd (t ++ trail) = trimEnd t := by
  rw [trimEnd, List.reverse_append,
    List.dropWhile_append_of_pos fun c hc => h c (List.mem_reverse.1 hc)]
  rfl

/-- White space at both ends makes no difference to trimming. -/
theorem trim_append_of_blank (t : Text) (hlead : ∀ c ∈ lead, isWhitespace c = true)
    (htrail : ∀ c ∈ trail, isWhitespace c = true) : trim (lead ++ t ++ trail) = trim t := by
  have hstart : trimStart (lead ++ t ++ trail) = trimStart (t ++ trail) := by
    rw [trimStart, List.append_assoc, List.dropWhile_append_of_pos hlead]
    rfl
  rw [trim, hstart, trimStart, List.dropWhile_append]
  split
  case isTrue hblank =>
    have hnil : trimStart t = [] := List.isEmpty_iff.1 hblank
    have htrailNil : trail.dropWhile isWhitespace = [] := trimStart_of_blank htrail
    rw [trim, hnil, htrailNil]
  case isFalse =>
    exact trimEnd_append_of_blank _ htrail

/-- White space at the end stays when a text is trimmed at the start, unless there is nothing else.
-/
theorem trimStart_append_of_blank {t : Text} (hlead : ∀ c ∈ lead, isWhitespace c = true)
    (ht : trim t ≠ []) : trimStart (lead ++ t ++ trail) = trimStart t ++ trail := by
  rw [trimStart, List.append_assoc, List.dropWhile_append_of_pos hlead, List.dropWhile_append,
    if_neg]
  · rfl
  · intro hblank
    have hnil : trimStart t = [] := List.isEmpty_iff.1 hblank
    exact ht (by rw [trim, hnil]; rfl)

end CodeProse.Text
