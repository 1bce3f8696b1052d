/-!
# Capital letters

Upper-casing into the letters that keywords are written with. A character whose upper-case form has
any other letter in it can be part of no keyword, and stands for itself here.
-/

namespace NullGuard.Text

/-- Characters outside the two alphabets whose upper-case form is written with A-Z and А-Я alone. -/
def capitalForms : List (Char × List Char) :=
  [('ß', ['S', 'S']), ('ı', ['I']), ('ſ', ['S']), ('ᲀ', ['В']), ('ᲁ', ['Д']), ('ᲂ', ['О']),
    ('ᲃ', ['С']), ('ᲄ', ['Т']), ('ᲅ', ['Т']), ('ᲆ', ['Ъ']), ('ﬀ', ['F', 'F']), ('ﬁ', ['F', 'I']),
    ('ﬂ', ['F', 'L']), ('ﬃ', ['F', 'F', 'I']), ('ﬄ', ['F', 'F', 'L']), ('ﬅ', ['S', 'T']),
    ('ﬆ', ['S', 'T'])]

/-- The capital letters that a character is spelled with in upper case. -/
def capital (c : Char) : List Char :=
  if 'а' ≤ c ∧ c ≤ 'я' then
    [Char.ofNat (c.toNat - 0x20)]
  else if c = 'ё' then
    ['Ё']
  else
    (capitalForms.lookup c).getD [c.toUpper]

def capitals (text : String) : List Char :=
  text.toList.flatMap capital

end NullGuard.Text
