import SqlAlgebra.Operator
import SqlAlgebra.Role
import SqlAlgebra.SqlType

/-!
# Labels

A label is the one word that a type, an operator or a role goes by where trees are written out or read
by a program.  It says which one is meant and, unlike a name in messages or a spelling in SQL, no two of
a kind share one.
-/

namespace SqlAlgebra

namespace SqlType

def all : List SqlType :=
  [.null, .integer, .float, .string, .boolean, .dateTime, .uuid, .json]

def label : SqlType → String
  | .null => "Null"
  | .integer => "Integer"
  | .float => "Float"
  | .string => "String"
  | .boolean => "Boolean"
  | .dateTime => "DateTime"
  | .uuid => "Uuid"
  | .json => "Json"

end SqlType

namespace BinaryOp

def label : BinaryOp → String
  | .eq => "Eq"
  | .ne => "Ne"
  | .lt => "Lt"
  | .le => "Le"
  | .gt => "Gt"
  | .ge => "Ge"
  | .is => "Is"
  | .isNot => "IsNot"
  | .isDistinctFrom => "IsDistinctFrom"
  | .isNotDistinctFrom => "IsNotDistinctFrom"
  | .like => "Like"
  | .notLike => "NotLike"
  | .iLike => "ILike"
  | .notILike => "NotILike"
  | .member => "In"
  | .notMember => "NotIn"
  | .between => "Between"
  | .notBetween => "NotBetween"
  | .add => "Add"
  | .sub => "Sub"
  | .mul => "Mul"
  | .div => "Div"
  | .mod => "Mod"
  | .concat => "Concat"
  | .bitAnd => "BitAnd"
  | .bitOr => "BitOr"

end BinaryOp

namespace UnaryOp

def label : UnaryOp → String
  | .not => "Not"
  | .neg => "Neg"
  | .bitNot => "BitNot"
  | .distinct => "Distinct"
  | .exists => "Exists"

end UnaryOp

namespace ListOp

def label : ListOp → String
  | .and => "And"
  | .or => "Or"
  | .comma => "Comma"

end ListOp

namespace JoinKind

def label : JoinKind → String
  | .inner => "Inner"
  | .left => "Left"
  | .right => "Right"
  | .full => "Full"

end JoinKind

namespace SetOp

def label : SetOp → String
  | .union => "Union"
  | .unionAll => "UnionAll"
  | .intersect => "Intersect"
  | .except => "Except"

end SetOp

namespace Role

def label : Role → String
  | .expressionElement => "ExpressionElement"
  | .binaryElement => "BinaryElement"
  | .inElement => "InElement"
  | .onClause => "OnClause"
  | .whereHaving => "WhereHaving"
  | .statementOption => "StatementOption"
  | .columnArgument => "ColumnArgument"
  | .columnArgumentOrKey => "ColumnArgumentOrKey"
  | .strAsPlainColumn => "StrAsPlainColumn"
  | .byOf => "ByOf"
  | .orderBy => "OrderBy"
  | .groupBy => "GroupBy"
  | .dmlColumn => "DmlColumn"
  | .constExpr => "ConstExpr"
  | .truncatedLabel => "TruncatedLabel"
  | .ddlExpression => "DdlExpression"
  | .ddlConstraintColumn => "DdlConstraintColumn"
  | .ddlReferredColumn => "DdlReferredColumn"
  | .limitOffset => "LimitOffset"
  | .labeledColumnExpr => "LabeledColumnExpr"
  | .columnsClause => "ColumnsClause"
  | .returnsRows => "ReturnsRows"
  | .statement => "Statement"
  | .selectStatement => "SelectStatement"
  | .joinTarget => "JoinTarget"
  | .fromClause => "FromClause"
  | .strictFromClause => "StrictFromClause"
  | .anonymizedFromClause => "AnonymizedFromClause"
  | .dmlTable => "DmlTable"
  | .dmlSelect => "DmlSelect"
  | .compoundElement => "CompoundElement"
  | .literalValue => "LiteralValue"

end Role

end SqlAlgebra
