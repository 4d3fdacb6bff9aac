/-
# Message templates

A template is text with placeholders, each a name between doubled braces. They are filled in one
pass from left to right, so what is put in is never read again.
-/
import CodeProse.Text.Blank
import CodeProse.Text.Search

namespace CodeProse.Template

/-- Two opening braces. -/
def openMark : Text := ['{', '{']

/-- Two closing braces. -/
def closeMark : Text := ['}', '}']

/-- Fills the placeholders of a template. A name that `lookup` does not know stays as written, as
does everything from a placeholder on that is never closed. The fuel bounds the number of
placeholders. -/
def fill (lookup : Text → Option Text) : Nat → Text → Text
  | 0, template => template
  | fuel + 1, template =>
    match Text.splitFirst? openMark template with
    | none => template
    | some (literal, rest) =>
      match Text.splitFirst? closeMark rest with
      | none => template
      | some (name, rest) =>
        literal ++ (lookup name.trim).getD (openMark ++ name ++ closeMark) ++ fill lookup fuel rest

/-- The template with its placeholders filled from `lookup`. -/
def render (lookup : Text → Option Text) (template : Text) : Text :=
  fill lookup template.length template

end CodeProse.Template
