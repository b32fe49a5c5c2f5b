import QueryPlans.Request.Basic

/-!
# Shape/Digest — the byte string that stands for a lifted request

A digest names every node by a tag and spells out what the node holds; parameters are spelt by
their type alone.  Numbers are little-endian, a text ends with a byte that no UTF-8 text has, and a
list is preceded by its length.  Requests that agree have one digest.  The converse fails: a path
takes part only by its length, its two ends and its keys, and a count only by its presence.
-/

namespace QueryPlans

namespace Digest

/-- The lowest `width` bytes of a number, lowest first. -/
def littleEndian : Nat → Nat → List UInt8
  | 0, _ => []
  | width + 1, n => n.toUInt8 :: littleEndian width (n / 256)

/-- A number as eight bytes. -/
def word (n : Nat) : List UInt8 := littleEndian 8 n

/-- A text with a byte behind it that no text contains, so that texts do not run together. -/
def text (s : String) : List UInt8 := s.toUTF8.toList ++ [0xff]

/-- A truth value as a byte. -/
def flag (b : Bool) : List UInt8 := [if b then 1 else 0]

/-- The byte in the place of an absent filter. -/
def absent : List UInt8 := [0xff]

/-- How many items there are, and then the items. -/
def list {α : Type} (digest : α → List UInt8) (items : List α) : List UInt8 :=
  word items.length ++ items.flatMap digest

/-- A value, or the mark of its absence. -/
def option {α : Type} (digest : α → List UInt8) : Option α → List UInt8
  | none => absent
  | some a => digest a

/-- Whether there is a value, and nothing of the value itself. -/
def presence {α : Type} (a : Option α) : List UInt8 := flag a.isSome

/-- The word in front of a continuation. -/
def continuationMark : List UInt8 := word 0x5eed70ce4e5eed01

end Digest

/-! ## Tags of enumerations -/

/-- The number of an operator. -/
def BinaryOp.tag : BinaryOp → Nat
  | eq => 0
  | ne => 1
  | lt => 2
  | le => 3
  | gt => 4
  | ge => 5
  | and => 6
  | or => 7
  | add => 8
  | sub => 9
  | mul => 10
  | div => 11
  | mod => 12
  | has => 13

/-- The number of an operator. -/
def UnaryOp.tag : UnaryOp → Nat
  | not => 0
  | negate => 1

/-- The number of a quantifier. -/
def Quantifier.tag : Quantifier → Nat
  | any => 0
  | all => 1

/-- The number of a direction. -/
def Direction.tag : Direction → Nat
  | ascending => 0
  | descending => 1

/-- The number of a method. -/
def AggregateMethod.tag : AggregateMethod → Nat
  | sum => 0
  | min => 1
  | max => 2
  | average => 3
  | countDistinct => 4
  | count => 5

/-! ## Expressions -/

/-- A path, segment by segment. -/
def PropertyPath.digest (path : PropertyPath) : List UInt8 := Digest.list Digest.text path.segments

mutual

/-- **The bytes of an expression**; of literals and parameters only their types. -/
def Expr.digest : Expr → List UInt8
  | .literal v => [0x00, v.type.tag]
  | .parameter slot => [0x01, slot.type.tag]
  | .property path => 0x02 :: path.digest
  | .binary op left right => 0x03 :: (Digest.word op.tag ++ left.digest ++ right.digest)
  | .unary op operand => 0x04 :: (Digest.word op.tag ++ operand.digest)
  | .call function args =>
    0x05 :: (Digest.text function ++ Digest.word args.length ++ Expr.digestAll args)
  | .lambda quantifier source binder body =>
    0x06 :: (Digest.word quantifier.tag ++ source.digest ++ Digest.text binder ++ body.digest)
  | .oneOf operand items =>
    0x07 :: (operand.digest ++ Digest.word items.length ++ Expr.digestAll items)
  | .unmodelled text => 0x08 :: Digest.text text

/-- Expressions one after the other. -/
def Expr.digestAll : List Expr → List UInt8
  | [] => []
  | e :: rest => e.digest ++ Expr.digestAll rest

end

/-! ## Clauses -/

/-- The bytes of an order. -/
def OrderItem.digest (item : OrderItem) : List UInt8 :=
  Digest.word item.direction.tag ++ item.key.digest

/-- The bytes of an aggregate. -/
def Aggregate.digest (item : Aggregate) : List UInt8 :=
  Digest.word item.method.tag ++ Digest.text item.name ++ item.operand.digest

/-- The bytes of a computed value. -/
def Computed.digest (item : Computed) : List UInt8 :=
  Digest.text item.name ++ item.value.digest

mutual

/-- Aggregated and computed items stand without their number. -/
def Transformation.digest : Transformation → List UInt8
  | .filter condition => 0x10 :: condition.digest
  | .groupBy properties nested =>
    0x11 :: (Digest.list PropertyPath.digest properties ++ Digest.word nested.length ++
      Transformation.digestAll nested)
  | .aggregate items => 0x12 :: items.flatMap Aggregate.digest
  | .compute items => 0x13 :: items.flatMap Computed.digest

/-- Steps one after the other. -/
def Transformation.digestAll : List Transformation → List UInt8
  | [] => []
  | step :: rest => step.digest ++ Transformation.digestAll rest

end

/-- A count takes part only by its presence. -/
def Paging.digest (paging : Paging) : List UInt8 :=
  Digest.presence paging.skip ++ Digest.presence paging.top ++ Digest.presence paging.pageSize

/-- How deep an expansion repeats itself, if it says so. -/
def ExpandClauses.levelsDigest (clauses : ExpandClauses) : List UInt8 :=
  match clauses.levels with
  | none => Digest.word 0
  | some n => Digest.word 1 ++ Digest.littleEndian 4 n.toNat

mutual

/-- The bytes of an item, and of what it selects in turn. -/
def SelectItem.digest : SelectItem → List UInt8
  | .wildcard => [0x20]
  | .property path => 0x21 :: path.digest
  | .expand path clauses items =>
    0x22 :: (path.digest ++ Digest.option Expr.digest clauses.filter ++
      Digest.list OrderItem.digest clauses.orderBy ++
      (Digest.word items.length ++ SelectItem.digestAll items) ++ clauses.paging.digest ++
      Digest.flag clauses.count ++ Digest.flag clauses.nextLink ++ clauses.levelsDigest)

/-- Items one after the other. -/
def SelectItem.digestAll : List SelectItem → List UInt8
  | [] => []
  | item :: rest => item.digest ++ SelectItem.digestAll rest

end

/-! ## Requests -/

/-- The bytes of a part of a key. -/
def keyPartDigest (part : String × Expr) : List UInt8 := Digest.text part.1 ++ part.2.digest

/-- What a segment adds apart from its identifier. -/
def Segment.keyDigest : Segment → List UInt8
  | .key parts => Digest.list keyPartDigest parts
  | _ => []

/-- The bytes of a path: of its segments only the first, the last and the keys. -/
def pathDigest (path : List Segment) : List UInt8 :=
  let ends := match path.head?, path.getLast? with
    | some first, some last => Digest.text first.identifier ++ Digest.text last.identifier
    | _, _ => []
  Digest.word path.length ++ ends ++ path.flatMap Segment.keyDigest

/-- The bytes of the clause that a request resumes by: its properties, not its values. -/
def continuationDigest : Option (List (String × Expr)) → List UInt8
  | none => []
  | some values => Digest.continuationMark ++ values.flatMap fun value => Digest.text value.1

/-- **The digest of a request.** -/
def Request.digest (r : Request) : List UInt8 :=
  pathDigest r.path ++ Digest.option Expr.digest r.filter ++
    (Digest.word r.apply.length ++ Transformation.digestAll r.apply) ++
    (Digest.word r.items.length ++ SelectItem.digestAll r.items) ++
    Digest.list OrderItem.digest r.orderBy ++ continuationDigest r.continuation ++
    Digest.flag r.count ++ r.paging.digest

end QueryPlans
