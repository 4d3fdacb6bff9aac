/-
# Spelling is local

Spelling looks at one word at a time, and only at the word itself. So where the words of a text are
those of its parts, its issues are those of its parts as well, each in its place. Any character that
parts words is such a seam (`check_append_cons`), and a blank leaves both parts whole
(`check_append_blank`).
-/
import CodeProse.Proofs.Text.Seam
import CodeProse.Spelling

namespace CodeProse.Spelling

open Text

variable (s : Settings) (d : Dictionary)

/-- The issues of some words. -/
def issuesOf (tokens : List Token) : List Issue :=
  (tokens.filter fun token => s.keepsWord token.text && isError s d token.text).map (issue d)

theorem check_eq_issuesOf (t : Text) : check s d t = issuesOf s d t.wordTokens := rfl

theorem issuesOf_append (front back : List Token) :
    issuesOf s d (front ++ back) = issuesOf s d front ++ issuesOf s d back := by
  rw [issuesOf, List.filter_append, List.map_append, issuesOf, issuesOf]

/-- Whether a word is reported, and how, does not depend on where it stands. -/
theorem issuesOf_shift (k : Nat) (tokens : List Token) :
    issuesOf s d (tokens.map (Token.shift k)) = (issuesOf s d tokens).map (Issue.shift k) := by
  rw [issuesOf, issuesOf, List.filter_map, List.map_map, List.map_map]
  rfl

/-- The issues on both sides of a character that parts words. -/
theorem check_append_cons {c : Char} (h : partsWords c = true) (a b : Text) :
    check s d (a ++ c :: b)
      = check s d a ++ (check s d (c :: b)).map (Issue.shift a.byteLength) := by
  rw [check_eq_issuesOf, wordTokens_append_cons h, issuesOf_append, issuesOf_shift]
  rfl

/-- **Spelling is local.**  The words and the issues of two texts with a blank between them are
those of the one and those of the other. -/
theorem check_append_blank (a b : Text) :
    wordTokens (a ++ ' ' :: b)
        = wordTokens a ++ (wordTokens b).map (Token.shift (byteLength a + 1)) ∧
      ∀ (s : Settings) (d : Dictionary), check s d (a ++ ' ' :: b)
        = check s d a ++ (check s d b).map (Issue.shift (byteLength a + 1)) := by
  have htokens := wordTokens_append_blank a b
  refine ⟨htokens, fun s d => ?_⟩
  rw [check_eq_issuesOf, htokens, issuesOf_append, issuesOf_shift]
  rfl

end CodeProse.Spelling
