/-!
# Operators

The operators of expressions with their spelling in standard SQL and their binding strength: of two
operators that compete for an operand, the one of higher precedence takes it.
-/

namespace SqlAlgebra

inductive BinaryOp where
  | eq
  | ne
  | lt
  | le
  | gt
  | ge
  | is
  | isNot
  | isDistinctFrom
  | isNotDistinctFrom
  | like
  | notLike
  | iLike
  | notILike
  | member
  | notMember
  | between
  | notBetween
  | add
  | sub
  | mul
  | div
  | mod
  | concat
  | bitAnd
  | bitOr
deriving DecidableEq

namespace BinaryOp

def all : List BinaryOp :=
  [.eq, .ne, .lt, .le, .gt, .ge, .is, .isNot, .isDistinctFrom, .isNotDistinctFrom, .like, .notLike,
    .iLike, .notILike, .member, .notMember, .between, .notBetween, .add, .sub, .mul, .div, .mod,
    .concat, .bitAnd, .bitOr]

/-- The spelling in standard SQL; a database may have another. -/
def sql : BinaryOp → String
  | .eq => "="
  | .ne => "!="
  | .lt => "<"
  | .le => "<="
  | .gt => ">"
  | .ge => ">="
  | .is => "IS"
  | .isNot => "IS NOT"
  | .isDistinctFrom => "IS DISTINCT FROM"
  | .isNotDistinctFrom => "IS NOT DISTINCT FROM"
  | .like => "LIKE"
  | .notLike => "NOT LIKE"
  | .iLike => "ILIKE"
  | .notILike => "NOT ILIKE"
  | .member => "IN"
  | .notMember => "NOT IN"
  | .between => "BETWEEN"
  | .notBetween => "NOT BETWEEN"
  | .add => "+"
  | .sub => "-"
  | .mul => "*"
  | .div => "/"
  | .mod => "%"
  | .concat => "||"
  | .bitAnd => "&"
  | .bitOr => "|"

def precedence : BinaryOp → Nat
  | .mul | .div | .mod => 8
  | .add | .sub | .concat => 7
  | .bitAnd | .bitOr => 6
  | _ => 5

/-- Whether a chain of the operator means the same however it is grouped. -/
def isAssociative : BinaryOp → Bool
  | .add | .mul | .concat | .bitAnd | .bitOr => true
  | _ => false

def isComparison (op : BinaryOp) : Bool := op.precedence == 5

/-- The operator of the opposite truth value. -/
def negate : BinaryOp → Option BinaryOp
  | .eq => some .ne
  | .ne => some .eq
  | .lt => some .ge
  | .ge => some .lt
  | .gt => some .le
  | .le => some .gt
  | .is => some .isNot
  | .isNot => some .is
  | .isDistinctFrom => some .isNotDistinctFrom
  | .isNotDistinctFrom => some .isDistinctFrom
  | .like => some .notLike
  | .notLike => some .like
  | .iLike => some .notILike
  | .notILike => some .iLike
  | .member => some .notMember
  | .notMember => some .member
  | .between => some .notBetween
  | .notBetween => some .between
  | _ => none

theorem mem_all (op : BinaryOp) : op ∈ all := by cases op <;> decide

end BinaryOp

inductive UnaryOp where
  | not
  | neg
  | bitNot
  | distinct
  | exists
deriving DecidableEq

namespace UnaryOp

def all : List UnaryOp := [.not, .neg, .bitNot, .distinct, .exists]

def sql : UnaryOp → String
  | .not => "NOT"
  | .neg => "-"
  | .bitNot => "~"
  | .distinct => "DISTINCT"
  | .exists => "EXISTS"

def precedence : UnaryOp → Nat
  | .neg | .bitNot => 9
  | .not => 4
  | .distinct | .exists => 5

/-- An operator written with a sign stands against its operand, one written with a word apart from it. -/
def isSign : UnaryOp → Bool
  | .neg | .bitNot => true
  | _ => false

end UnaryOp

/-- What joins the clauses of a list. -/
inductive ListOp where
  | and
  | or
  | comma
deriving DecidableEq

namespace ListOp

def all : List ListOp := [.and, .or, .comma]

def separator : ListOp → String
  | .and => " AND "
  | .or => " OR "
  | .comma => ", "

def precedence : ListOp → Nat
  | .and => 3
  | .or => 2
  | .comma => 0

end ListOp

inductive JoinKind where
  | inner
  | left
  | right
  | full
deriving DecidableEq

namespace JoinKind

def all : List JoinKind := [.inner, .left, .right, .full]

def sql : JoinKind → String
  | .inner => "JOIN"
  | .left => "LEFT OUTER JOIN"
  | .right => "RIGHT OUTER JOIN"
  | .full => "FULL OUTER JOIN"

end JoinKind

/-- What combines the rows of several SELECTs. -/
inductive SetOp where
  | union
  | unionAll
  | intersect
  | except
deriving DecidableEq

namespace SetOp

def all : List SetOp := [.union, .unionAll, .intersect, .except]

def sql : SetOp → String
  | .union => "UNION"
  | .unionAll => "UNION ALL"
  | .intersect => "INTERSECT"
  | .except => "EXCEPT"

end SetOp

inductive NullsOrder where
  | first
  | last
deriving DecidableEq

namespace NullsOrder

def name : NullsOrder → String
  | .first => "First"
  | .last => "Last"

def sql : NullsOrder → String
  | .first => " NULLS FIRST"
  | .last => " NULLS LAST"

end NullsOrder

end SqlAlgebra
