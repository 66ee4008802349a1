import ClassScript.Token.Kind
import ClassScript.Tree.Expr

/-!
# Binding powers

How strongly the operators bind. An operator belongs to the operand on its left
as long as it binds more strongly than what surrounds that operand.
-/

namespace ClassScript

/-- The levels of binding power, weakest first. -/
inductive Power where
  | default | assignment | coalesce | logicalOr | logicalAnd | equality | relational
  | additive | multiplicative | unary | call | member | primary
deriving DecidableEq

namespace Power

/-- The place of a power in the order. -/
def rank : Power → Nat
  | .default => 0
  | .assignment => 1
  | .coalesce => 2
  | .logicalOr => 3
  | .logicalAnd => 4
  | .equality => 5
  | .relational => 6
  | .additive => 7
  | .multiplicative => 8
  | .unary => 9
  | .call => 10
  | .member => 11
  | .primary => 12

instance : LT Power := ⟨fun a b => a.rank < b.rank⟩

instance (a b : Power) : Decidable (a < b) :=
  inferInstanceAs (Decidable (a.rank < b.rank))

end Power

namespace Kind

/-- The power of a token that continues the expression before it. -/
def power? : Kind → Option Power
  | .assignment | .plusEquals | .minusEquals | .starEquals | .slashEquals => some .assignment
  | .nullCoalesce => some .coalesce
  | .or => some .logicalOr
  | .and => some .logicalAnd
  | .equals | .notEquals => some .equality
  | .less | .lessEquals | .greater | .greaterEquals => some .relational
  | .plus | .dash => some .additive
  | .star | .slash | .percent => some .multiplicative
  | .openParen | .plusPlus | .minusMinus => some .call
  | .dot | .openBracket => some .member
  | _ => none

/-- The binary operator that a token stands for. -/
def binaryOp? : Kind → Option BinaryOp
  | .plus => some .add
  | .dash => some .subtract
  | .star => some .multiply
  | .slash => some .divide
  | .percent => some .modulo
  | .equals => some .equal
  | .notEquals => some .notEqual
  | .less => some .less
  | .lessEquals => some .lessEqual
  | .greater => some .greater
  | .greaterEquals => some .greaterEqual
  | .and => some .and
  | .or => some .or
  | .nullCoalesce => some .coalesce
  | _ => none

/-- The assignment operator that a token stands for; a token that is none of the
compound ones stands for plain assignment. -/
def assignOp : Kind → AssignOp
  | .plusEquals => .add
  | .minusEquals => .subtract
  | .starEquals => .multiply
  | .slashEquals => .divide
  | _ => .assign

end Kind

end ClassScript
