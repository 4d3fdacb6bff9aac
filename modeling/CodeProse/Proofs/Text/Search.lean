/-
# Where one text is first found in another

A text is split at the first occurrence of a pattern: there is none that begins before it
(`splitFirst?_eq_some_iff`). It is not split if there is no occurrence at all
(`splitFirst?_eq_none_iff`).
-/
import CodeProse.Proofs.Text.Cut
import CodeProse.Text.Search

namespace CodeProse.Text

/-- What begins with a text is that text and what follows it. -/
theorem dropStart?_eq_some_iff (start t rest : Text) :
    dropStart? start t = some rest ↔ t = start ++ rest := by
  induction start generalizing t with
  | nil => simp [dropStart?]
  | cons c start ih =>
    cases t with
    | nil => simp [dropStart?]
    | cons d t =>
      rw [dropStart?]
      split
      case isTrue hc => simp [ih, hc]
      case isFalse hc => simp [Ne.symm hc]

/-- A text is parted by an occurrence of a pattern, and no other one begins before that. -/
structure PartsFirst (pattern t before after : Text) : Prop where
  split : t = before ++ pattern ++ after
  first : ∀ a b, t = a ++ pattern ++ b → before.length ≤ a.length

/-- A pattern at the start of a text is the first one. -/
theorem partsFirst_of_start {pattern t before after rest : Text} (h : t = pattern ++ rest) :
    PartsFirst pattern t before after ↔ before = [] ∧ after = rest := by
  constructor
  · rintro ⟨hsplit, hfirst⟩
    have hnil : before = [] := List.length_eq_zero_iff.1 (Nat.le_zero.1 (hfirst [] rest h))
    subst hnil
    exact ⟨rfl, List.append_cancel_left (hsplit.symm.trans h)⟩
  · rintro ⟨rfl, rfl⟩
    exact ⟨h, fun a b _ => Nat.zero_le _⟩

/-- Without a pattern at its start, a text is parted as what follows its first character. -/
theorem partsFirst_cons {pattern t before after : Text} {c : Char}
    (h : ∀ rest, c :: t ≠ pattern ++ rest) :
    PartsFirst pattern (c :: t) before after ↔
      ∃ more, before = c :: more ∧ PartsFirst pattern t more after := by
  constructor
  · rintro ⟨hsplit, hfirst⟩
    cases before with
    | nil => exact absurd hsplit (h after)
    | cons d more =>
      obtain ⟨rfl, hrest⟩ := List.cons.inj hsplit
      refine ⟨more, rfl, hrest, fun a b ht => ?_⟩
      have hle := hfirst (c :: a) b (by rw [ht]; rfl)
      simpa using hle
  · rintro ⟨more, rfl, hsplit, hfirst⟩
    refine ⟨by rw [hsplit]; rfl, fun a b ht => ?_⟩
    cases a with
    | nil => exact absurd ht (h b)
    | cons d a =>
      have hle := hfirst a b (List.cons.inj ht).2
      simpa using hle

/-- **A text is split at the first occurrence of a pattern.** -/
theorem splitFirst?_eq_some_iff (pattern t before after : Text) :
    splitFirst? pattern t = some (before, after) ↔ PartsFirst pattern t before after := by
  induction t generalizing before with
  | nil =>
    rw [splitFirst?, Option.map_eq_some_iff]
    constructor
    · rintro ⟨rest, hrest, heq⟩
      obtain ⟨rfl, rfl⟩ := Prod.mk.inj heq
      exact (partsFirst_of_start ((dropStart?_eq_some_iff _ _ _).1 hrest)).2 ⟨rfl, rfl⟩
    · intro h
      obtain ⟨hfront, hafter⟩ := List.append_eq_nil_iff.1 h.split.symm
      obtain ⟨hbefore, hpattern⟩ := List.append_eq_nil_iff.1 hfront
      exact ⟨after, by rw [hpattern, hafter]; rfl, by rw [hbefore]⟩
  | cons c t ih =>
    rw [splitFirst?]
    split
    case h_1 rest hrest =>
      rw [partsFirst_of_start ((dropStart?_eq_some_iff _ _ _).1 hrest), Option.some.injEq,
        Prod.mk.injEq, eq_comm, @eq_comm _ rest]
    case h_2 hnone =>
      have hstart : ∀ rest, c :: t ≠ pattern ++ rest := by
        intro rest heq
        rw [(dropStart?_eq_some_iff _ _ _).2 heq] at hnone
        cases hnone
      rw [partsFirst_cons hstart, Option.map_eq_some_iff]
      constructor
      · rintro ⟨⟨more, rest⟩, hsplit, heq⟩
        obtain ⟨rfl, rfl⟩ := Prod.mk.inj heq
        exact ⟨more, rfl, (ih more).1 hsplit⟩
      · rintro ⟨more, rfl, hparts⟩
        exact ⟨(more, after), (ih more).2 hparts, rfl⟩

theorem dropStart?_eq_none_iff (start t : Text) : dropStart? start t = none ↔ ¬ start <+: t := by
  rw [Option.eq_none_iff_forall_ne_some, ← not_exists]
  refine not_congr (exists_congr fun rest => ?_)
  rw [dropStart?_eq_some_iff, eq_comm]

/-- A pattern that is not found does not occur. -/
theorem splitFirst?_eq_none_iff (pattern t : Text) :
    splitFirst? pattern t = none ↔ ¬ pattern <:+: t := by
  induction t with
  | nil =>
    rw [splitFirst?, Option.map_eq_none_iff, dropStart?_eq_none_iff, List.prefix_nil,
      List.infix_nil]
  | cons c t ih =>
    rw [splitFirst?, List.infix_cons_iff]
    split
    case h_1 rest hrest =>
      have hstart : pattern <+: c :: t := ⟨rest, ((dropStart?_eq_some_iff _ _ _).1 hrest).symm⟩
      simp [hstart]
    case h_2 hnone =>
      rw [Option.map_eq_none_iff, ih, or_iff_right ((dropStart?_eq_none_iff _ _).1 hnone)]

theorem splitFirst?_eq_some {pattern t before after : Text}
    (h : splitFirst? pattern t = some (before, after)) : t = before ++ pattern ++ after :=
  ((splitFirst?_eq_some_iff _ _ _ _).1 h).split

/-- A text is parted in one way only. -/
theorem PartsFirst.unique {pattern t a b a' b' : Text} (h : PartsFirst pattern t a b)
    (h' : PartsFirst pattern t a' b') : a = a' ∧ b = b' := by
  have hsame := (splitFirst?_eq_some_iff _ _ _ _).2 h
  rw [(splitFirst?_eq_some_iff _ _ _ _).2 h'] at hsame
  exact Prod.mk.inj (Option.some.inj hsame.symm)

/-- A character that is not in front of a pattern cannot begin an earlier one. -/
theorem partsFirst_of_notMem {c : Char} {before : Text} (pattern after : Text) (h : c ∉ before) :
    PartsFirst (c :: pattern) (before ++ c :: pattern ++ after) before after := by
  refine ⟨rfl, fun a b hsplit => ?_⟩
  rw [List.append_assoc, List.append_assoc] at hsplit
  rcases List.append_eq_append_iff.1 hsplit with ⟨x, rfl, -⟩ | ⟨x, rfl, hx⟩
  · simp
  · cases x with
    | nil => simp
    | cons d x =>
      obtain rfl : c = d := (List.cons.inj hx).1
      exact absurd (by simp) h

/-- The pattern does not occur before its first occurrence. -/
theorem not_infix_of_splitFirst? {pattern t before after : Text} (hpattern : pattern ≠ [])
    (h : splitFirst? pattern t = some (before, after)) : ¬ pattern <:+: before := by
  rintro ⟨a, b, hab⟩
  obtain ⟨hsplit, hfirst⟩ := (splitFirst?_eq_some_iff _ _ _ _).1 h
  have hle := hfirst a (b ++ (pattern ++ after)) (by rw [hsplit, ← hab]; simp)
  have hpos := List.length_pos_iff.2 hpattern
  rw [← hab, List.length_append, List.length_append] at hle
  omega

end CodeProse.Text
