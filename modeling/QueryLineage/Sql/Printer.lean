import QueryLineage.Sql.Syntax
import QueryLineage.Text.Split

/-!
# The text of syntax

One blank between words, keywords in capitals, names as they were written.
-/

namespace QueryLineage.Sql

/-! ## Quotation -/

/-- Doubles each quotation mark that stands by itself. One after a backslash, or one that is doubled
already, stays as it is; `previous` is the character before. -/
def doubleMarks (mark : Char) (previous : Char) : List Char → List Char
  | [] => []
  | c :: rest =>
    if c ≠ mark then c :: doubleMarks mark c rest
    else if previous = '\\' then c :: doubleMarks mark previous rest
    else match rest with
      | d :: rest' =>
        if d = mark then c :: d :: doubleMarks mark c rest'
        else c :: c :: doubleMarks mark c (d :: rest')
      | [] => [c, c]

def quoted (mark : Char) (s : String) : String :=
  String.ofList (mark :: doubleMarks mark '\x00' s.toList ++ [mark])

def Ident.text (i : Ident) : String :=
  match i.quote with
  | some mark => quoted mark i.value
  | none => i.value

def nameText (name : ObjectName) : String := Text.join "." (name.map Ident.text)

def Operator.text : Operator → String
  | .equals => "="
  | .conjunction => "AND"
  | .other symbol => symbol

def JoinOperator.text : JoinOperator → String
  | .join => "JOIN"
  | .inner => "INNER JOIN"
  | .left => "LEFT JOIN"
  | .leftOuter => "LEFT OUTER JOIN"
  | .right => "RIGHT JOIN"
  | .rightOuter => "RIGHT OUTER JOIN"
  | .full => "FULL JOIN"
  | .cross => "CROSS JOIN"

def TableAlias.text (a : TableAlias) : String :=
  (if a.marked then "AS " else "") ++ a.name.text ++ a.columns

/-- The text of an alias after a blank, if there is one. -/
def aliasText : Option TableAlias → String
  | some a => " " ++ a.text
  | none => ""

/-! ## Expressions, relations and queries -/

def commaSeparated (parts : List String) : String := Text.join ", " parts

mutual

def Expr.text : Expr → String
  | .column first rest => nameText (first :: rest)
  | .binary left op right => left.text ++ " " ++ op.text ++ " " ++ right.text
  | .nested inner => "(" ++ inner.text ++ ")"
  | .subquery query => "(" ++ query.text ++ ")"
  | .call name opening args closing groupOrder rest =>
    nameText name ++ piecesText opening ++ commaSeparated (argumentTexts args)
      ++ piecesText closing ++ piecesText groupOrder ++ piecesText rest
  | .trimming side characters text =>
    "TRIM(" ++ side ++ characters.text ++ " FROM " ++ text.text ++ ")"
  | .form pieces => piecesText pieces

def Argument.text : Argument → String
  | .expr e => e.text
  | .other pieces => piecesText pieces

def Piece.written : Piece → String
  | .text s => s
  | .expr e => e.text
  | .query q => q.text
  | .relation r => r.text

def Relation.text : Relation → String
  | .table name afterName alternative afterAlias =>
    nameText name ++ piecesText afterName ++ aliasText alternative ++ piecesText afterAlias
  | .derived opening query alternative afterAlias =>
    opening ++ "(" ++ query.text ++ ")" ++ aliasText alternative ++ piecesText afterAlias
  | .joined item alternative => "(" ++ item.text ++ ")" ++ aliasText alternative
  | .unnest items afterItems alternative afterAlias =>
    "UNNEST(" ++ commaSeparated (exprTexts items) ++ ")" ++ afterItems ++ aliasText alternative
      ++ afterAlias
  | .form pieces => piecesText pieces

def Join.text : Join → String
  | .conditioned op relation condition =>
    op.text ++ " " ++ relation.text ++ " ON " ++ condition.text
  | .matching op relation columns =>
    op.text ++ " " ++ relation.text ++ " USING(" ++ commaSeparated (columns.map nameText) ++ ")"
  | .natural op relation => "NATURAL " ++ op.text ++ " " ++ relation.text
  | .unconditional op relation => op.text ++ " " ++ relation.text
  | .operator _ opening relation rest => opening ++ " " ++ relation.text ++ piecesText rest

def FromItem.text : FromItem → String
  | .mk relation joins => relation.text ++ joinsText joins

def SelectItem.text : SelectItem → String
  | .unnamed e => e.text
  | .aliased e name => e.text ++ " AS " ++ name.text
  | .wildcard pieces => piecesText pieces

def Body.text : Body → String
  | .select opening items sources condition groups afterGroups having rest =>
    piecesText opening ++ commaSeparated (itemTexts items)
      ++ (if sources.isEmpty then "" else " FROM " ++ commaSeparated (fromTexts sources))
      ++ clauseText " WHERE " condition
      ++ (if groups.isEmpty then "" else " GROUP BY " ++ commaSeparated (exprTexts groups))
      ++ afterGroups
      ++ clauseText " HAVING " having
      ++ piecesText rest
  | .query q => "(" ++ q.text ++ ")"
  | .setOperation left op right => left.text ++ " " ++ op ++ " " ++ right.text
  | .other pieces => piecesText pieces

def Query.text : Query → String
  | .mk opening ctes body rest =>
    (if ctes.isEmpty then "" else opening ++ commaSeparated (cteTexts ctes) ++ " ")
      ++ body.text ++ piecesText rest

def Cte.text : Cte → String
  | .mk name columns opening query =>
    name.text ++ columns ++ " AS " ++ opening ++ "(" ++ query.text ++ ")"

def clauseText (keyword : String) : Option Expr → String
  | some e => keyword ++ e.text
  | none => ""

def piecesText : List Piece → String
  | [] => ""
  | p :: ps => p.written ++ piecesText ps

def argumentTexts : List Argument → List String
  | [] => []
  | a :: rest => a.text :: argumentTexts rest

def exprTexts : List Expr → List String
  | [] => []
  | e :: es => e.text :: exprTexts es

/-- The texts of joins, each after a blank. -/
def joinsText : List Join → String
  | [] => ""
  | j :: js => " " ++ j.text ++ joinsText js

def fromTexts : List FromItem → List String
  | [] => []
  | i :: rest => i.text :: fromTexts rest

def itemTexts : List SelectItem → List String
  | [] => []
  | i :: rest => i.text :: itemTexts rest

def cteTexts : List Cte → List String
  | [] => []
  | c :: rest => c.text :: cteTexts rest

end

def Statement.text : Statement → String
  | .query q => q.text
  | .other pieces => piecesText pieces

end QueryLineage.Sql
