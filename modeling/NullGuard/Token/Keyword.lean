import NullGuard.Text.Capital

/-!
# Keywords

The reserved words of the query language and the words that are reserved in one position only.
Each is known by an English and by a Russian spelling, in any case. `ПО` is both `ON` and `BY`; it
is read as `ON`, which the grammar accepts where `BY` stands.
-/

namespace NullGuard

/-- The reserved words, by their English spelling. -/
inductive Keyword where
  | select
  | allowed
  | distinct
  | top
  | into
  | from_
  | where_
  | as
  | group
  | by_
  | order
  | having
  | union
  | all
  | asc
  | desc
  | join
  | inner
  | left
  | right
  | full
  | outer
  | on
  | and
  | or
  | not
  | is
  | in_
  | between
  | like
  | isNull
  | case
  | when
  | then_
  | else_
  | end_
  | true_
  | false_
  | null
  | undefined
deriving DecidableEq

namespace Keyword

/-- The English spelling, which stands for the keyword in messages. -/
def english : Keyword → String
  | select => "SELECT"
  | allowed => "ALLOWED"
  | distinct => "DISTINCT"
  | top => "TOP"
  | into => "INTO"
  | from_ => "FROM"
  | where_ => "WHERE"
  | as => "AS"
  | group => "GROUP"
  | by_ => "BY"
  | order => "ORDER"
  | having => "HAVING"
  | union => "UNION"
  | all => "ALL"
  | asc => "ASC"
  | desc => "DESC"
  | join => "JOIN"
  | inner => "INNER"
  | left => "LEFT"
  | right => "RIGHT"
  | full => "FULL"
  | outer => "OUTER"
  | on => "ON"
  | and => "AND"
  | or => "OR"
  | not => "NOT"
  | is => "IS"
  | in_ => "IN"
  | between => "BETWEEN"
  | like => "LIKE"
  | isNull => "ISNULL"
  | case => "CASE"
  | when => "WHEN"
  | then_ => "THEN"
  | else_ => "ELSE"
  | end_ => "END"
  | true_ => "TRUE"
  | false_ => "FALSE"
  | null => "NULL"
  | undefined => "UNDEFINED"

def every : List Keyword :=
  [select, allowed, distinct, top, into, from_, where_, as, group, by_, order, having, union, all,
    asc, desc, join, inner, left, right, full, outer, on, and, or, not, is, in_, between, like,
    isNull, case, when, then_, else_, end_, true_, false_, null, undefined]

/-- The Russian spellings. `BY` and `NULL` have none of their own, and `ALLOWED` has two. -/
def russian : List (String × Keyword) :=
  [("ВЫБРАТЬ", select), ("РАЗРЕШЕННЫЕ", allowed), ("РАЗРЕШЁННЫЕ", allowed), ("РАЗЛИЧНЫЕ", distinct),
    ("ПЕРВЫЕ", top), ("ПОМЕСТИТЬ", into), ("ИЗ", from_), ("ГДЕ", where_), ("КАК", as),
    ("СГРУППИРОВАТЬ", group), ("УПОРЯДОЧИТЬ", order), ("ИМЕЮЩИЕ", having), ("ОБЪЕДИНИТЬ", union),
    ("ВСЕ", all), ("ВОЗР", asc), ("УБЫВ", desc), ("СОЕДИНЕНИЕ", join), ("ВНУТРЕННЕЕ", inner),
    ("ЛЕВОЕ", left), ("ПРАВОЕ", right), ("ПОЛНОЕ", full), ("ВНЕШНЕЕ", outer), ("ПО", on),
    ("И", and), ("ИЛИ", or), ("НЕ", not), ("ЕСТЬ", is), ("В", in_), ("МЕЖДУ", between),
    ("ПОДОБНО", like), ("ЕСТЬNULL", isNull), ("ВЫБОР", case), ("КОГДА", when), ("ТОГДА", then_),
    ("ИНАЧЕ", else_), ("КОНЕЦ", end_), ("ИСТИНА", true_), ("ЛОЖЬ", false_),
    ("НЕОПРЕДЕЛЕНО", undefined)]

/-- Every spelling in capital letters with its keyword. -/
def spellings : List (List Char × Keyword) :=
  every.map (fun k => (k.english.toList, k)) ++ russian.map (fun (word, k) => (word.toList, k))

/-- The keyword that a word spells in some case. -/
def lookup (word : String) : Option Keyword :=
  spellings.lookup (Text.capitals word)

end Keyword

/-- Words that are reserved in one position and ordinary names everywhere else. -/
inductive ContextWord where
  /-- The word `HIERARCHY`, right after `IN`. -/
  | hierarchy
  /-- The word `REFS`, between an operand and a table path. -/
  | refs
deriving DecidableEq

namespace ContextWord

/-- Every spelling in capital letters with its word. -/
def spellings : List (List Char × ContextWord) :=
  [("HIERARCHY".toList, hierarchy), ("ИЕРАРХИИ".toList, hierarchy), ("REFS".toList, refs),
    ("ССЫЛКА".toList, refs)]

/-- The contextual word that a word spells in some case. -/
def lookup (word : String) : Option ContextWord :=
  spellings.lookup (Text.capitals word)

end ContextWord

end NullGuard
