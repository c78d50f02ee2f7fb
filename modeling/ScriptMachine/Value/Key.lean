import ScriptMachine.Data.FoldedHash
import ScriptMachine.Value.Basic

/-!
Values as map keys. Lists and maps are no keys, and neither are tuples that hold
one; among the others equality needs no heap. Numbers are equal when they are the
same number, so an integral float and the integer are one key. What is fed into a
hash follows equality: equal keys feed the same words.
-/

namespace ScriptMachine

namespace Value

/-- Equality of values that are not looked into. Objects are equal to themselves
only; a float that is not a number is not even that. -/
def atomEquals : Value → Value → Bool
  | .null, .null => true
  | .bool a, .bool b => a == b
  | .int a, .int b => a == b
  | .float a, .float b => a.equals b
  | .int a, .float b => Binary64.toWord? b == some a
  | .float a, .int b => Binary64.toWord? a == some b
  | .str a, .str b => a == b
  | .type a, .type b => a == b
  | .exceptionType a, .exceptionType b => a == b
  | .method a, .method b => a == b
  | .closure a, .closure b => a == b
  | .bound r s, .bound t u => r == t && s == u
  | .native a, .native b => a == b
  | .cls a, .cls b => a == b
  | .instance a, .instance b => a == b
  | .exception a, .exception b => a == b
  | .module a, .module b => a == b
  | .interface a, .interface b => a == b
  | .enum a, .enum b => a == b
  | .iterator a, .iterator b => a == b
  | .list a, .list b => a == b
  | .map a, .map b => a == b
  | _, _ => false

/-- Compares items of two sequences in order, up to the first pair that is unequal
or cannot be compared. -/
def pairwise (compare : Value → Value → Option Bool) : List Value → List Value → Option Bool
  | x :: xs, y :: ys =>
      match compare x y with
      | some true => pairwise compare xs ys
      | other => other
  | _, _ => some true

/-- Equality of keys whose tuples are nested at most `budget` deep; `none` when they
are nested deeper. -/
def keyEqualsWithin (budget : Nat) (a b : Value) : Option Bool :=
  match a, b with
  | .tuple xs, .tuple ys =>
      if xs.length ≠ ys.length then some false
      else
        match budget with
        | 0 => none
        | budget + 1 => pairwise (fun x y => keyEqualsWithin budget x y) xs ys
  | a, b => some (atomEquals a b)

/-- Equality as map keys. -/
def keyEquals (a b : Value) : Bool :=
  (keyEqualsWithin maxNesting a b).getD false

mutual

/-- The type that keeps a value from being a key, if there is one. -/
def unhashable? : Value → Option TypeTag
  | .list _ => some .list
  | .map _ => some .hashMap
  | .tuple items => unhashableItem? items
  | _ => none

/-- The first obstacle among the items of a tuple. -/
def unhashableItem? : List Value → Option TypeTag
  | [] => none
  | item :: rest => (unhashable? item).or (unhashableItem? rest)

end

/-- The value can be a map key. -/
def isHashable (v : Value) : Bool :=
  (unhashable? v).isNone

/-- What is fed into a hash. -/
inductive HashWord where
  | mark (n : Nat)
  | flag (b : Bool)
  | word (w : Int64)
  | bits (b : UInt64)
  | text (s : String)
  | size (n : Nat)
  /-- An object, by its kind and number. -/
  | object (kind : TypeTag) (number : Nat)
deriving Repr, DecidableEq, Inhabited

/-- The words of a receiver: objects by identity, strings by content. -/
def receiverWords : Receiver → List HashWord
  | .instance id => [.object .object id]
  | .list id => [.object .list id]
  | .map id => [.object .hashMap id]
  | .str text => [.mark 4, .text text]

/-- The words of what is bound to a receiver. -/
def targetWords : BoundTarget → List HashWord
  | .method id => [.mark 9, .object .method id]
  | .native object => [.mark 9, .object .nativeFunction object.number]

/-- The words of a float: those of the integer it equals, or its bits. -/
def floatWords (f : Binary64) : List HashWord :=
  match Binary64.toWord? f with
  | some w => [.mark 2, .word w]
  | none => [.mark 3, .bits f.bits]

mutual

/-- The words of a value. Tuples nested deeper than `budget` contribute only their
length. -/
def hashWords (budget : Nat) : Value → List HashWord
  | .null => [.mark 0]
  | .bool b => [.mark 1, .flag b]
  | .int i => [.mark 2, .word i]
  | .float f => floatWords f
  | .str s => [.mark 4, .text s]
  | .tuple items =>
      .mark 5 :: .size items.length ::
        match budget with
        | 0 => []
        | budget + 1 => itemWords budget items
  | .type t => [.mark 6, .size t.tag]
  | .exceptionType t => [.mark 7, .size t.tag]
  | .bound receiver target => .mark 8 :: receiverWords receiver ++ targetWords target
  | .list id => [.mark 9, .object .list id]
  | .map id => [.mark 9, .object .hashMap id]
  | .method id => [.mark 9, .object .method id]
  | .closure id => [.mark 9, .object .closure id]
  | .native object => [.mark 9, .object .nativeFunction object.number]
  | .cls id => [.mark 9, .object .cls id]
  | .instance id => [.mark 9, .object .object id]
  | .exception id => [.mark 9, .object .exception id]
  | .module id => [.mark 9, .object .module id]
  | .interface id => [.mark 9, .object .interface id]
  | .enum id => [.mark 9, .object .enum id]
  | .iterator id => [.mark 9, .object .iterator id]

/-- The words of tuple items in order. -/
def itemWords (budget : Nat) : List Value → List HashWord
  | [] => []
  | item :: rest => hashWords budget item ++ itemWords budget rest

end

/-- The word that stands for an object: its kind in the upper half, its number in the
lower. No mark or size is that large. -/
def objectWord (kind : TypeTag) (number : Nat) : UInt64 :=
  UInt64.ofNat ((kind.tag + 1) * Nat.pow 2 32 + number)

/-- Takes a word of a value into a hash. -/
def takeIn (h : Hasher) : HashWord → Hasher
  | .mark n => h.word n.toUInt64
  | .flag b => h.word (if b then 1 else 0)
  | .word w => h.word w.toUInt64
  | .bits b => h.word b
  | .text s => h.text s
  | .size n => h.word n.toUInt64
  | .object kind number => h.word (objectWord kind number)

/-- The hash of a value as a word. -/
def hash (v : Value) : Int64 :=
  ((hashWords maxNesting v).foldl takeIn Hasher.initial).finish.toInt64

/-! ## Equal keys have one hash -/

/-- Equal floats feed the same words: they have the same bits, or both are zero. -/
theorem floatWords_eq_of_equals {a b : Binary64} (equal : a.equals b = true) :
    floatWords a = floatWords b := by
  by_cases same : a = b
  · rw [same]
  · have rank : a.rank = b.rank := by
      simp only [Binary64.equals, Bool.and_eq_true, beq_iff_eq] at equal
      exact equal.2
    have zeros : a.magnitude = 0 ∧ b.magnitude = 0 := by
      have differ : a.bits.toNat ≠ b.bits.toNat := fun h =>
        same (congrArg Binary64.mk (UInt64.toNat_inj.1 h))
      have boundA := a.bits.toNat_lt
      have boundB := b.bits.toNat_lt
      have power : Nat.pow 2 63 = 9223372036854775808 := by decide
      simp only [Binary64.rank, Binary64.signed, Binary64.isNegative, Binary64.magnitude, power,
        decide_eq_true_eq] at rank ⊢
      split at rank <;> split at rank <;> omega
    have words (f : Binary64) (zero : f.magnitude = 0) : f.toWord? = some 0 := by
      have decoded : f.decode = .finite f.isNegative 0 Binary64.leastExponent := by
        simp [Binary64.decode, zero]
      have whole : Binary64.isWhole 0 Binary64.leastExponent = true := by simp [Binary64.isWhole]
      have part : Binary64.wholePart 0 Binary64.leastExponent = 0 := by simp [Binary64.wholePart]
      have number : Binary64.signed f.isNegative 0 = 0 := by simp [Binary64.signed]
      simp only [Binary64.toWord?, decoded, whole, part, number, if_true]
      decide
    simp [floatWords, words a zeros.1, words b zeros.2]

theorem hashWords_eq_of_atomEquals {a b : Value} (equal : atomEquals a b = true) (budget : Nat) :
    hashWords budget a = hashWords budget b := by
  cases a <;> cases b <;> simp_all [atomEquals, hashWords]
  case float.float => exact floatWords_eq_of_equals equal
  all_goals simp [floatWords, equal]

/-- Sequences of one length whose items are equal in pairs feed the same words. -/
theorem itemWords_eq_of_pairwise {compare : Value → Value → Option Bool} {budget : Nat}
    (words : ∀ x y, compare x y = some true → hashWords budget x = hashWords budget y)
    {xs ys : List Value} (sizes : xs.length = ys.length)
    (equal : pairwise compare xs ys = some true) : itemWords budget xs = itemWords budget ys := by
  induction xs generalizing ys with
  | nil => rw [List.length_eq_zero_iff.1 sizes.symm]
  | cons x xs ih =>
      cases ys with
      | nil => simp at sizes
      | cons y ys =>
          rw [pairwise] at equal
          split at equal
          · rename_i first
            rw [itemWords, itemWords, words x y first, ih (by simpa using sizes) equal]
          · rename_i other
            exact absurd equal other

theorem hashWords_eq_of_keyEqualsWithin {depth : Nat} {a b : Value}
    (equal : keyEqualsWithin depth a b = some true) (budget : Nat) :
    hashWords budget a = hashWords budget b := by
  induction depth generalizing a b budget with
  | zero =>
      unfold keyEqualsWithin at equal
      split at equal
      · split at equal <;> simp at equal
      · exact hashWords_eq_of_atomEquals (by simpa using equal) budget
  | succ depth ih =>
      unfold keyEqualsWithin at equal
      split at equal
      · rename_i xs ys
        split at equal
        · simp at equal
        · rename_i sizes
          have sizes : xs.length = ys.length := by simpa using sizes
          cases budget with
          | zero => simp [hashWords, sizes]
          | succ budget =>
              rw [hashWords, hashWords, sizes,
                itemWords_eq_of_pairwise (fun x y h => ih h budget) sizes equal]
      · exact hashWords_eq_of_atomEquals (by simpa using equal) budget

/-- Equal keys have the same hash. -/
theorem hash_eq_of_keyEquals {a b : Value} (equal : keyEquals a b = true) : a.hash = b.hash := by
  have within : keyEqualsWithin maxNesting a b = some true := by
    unfold keyEquals at equal
    cases h : keyEqualsWithin maxNesting a b <;> simp_all
  rw [hash, hash, hashWords_eq_of_keyEqualsWithin within]

end Value
end ScriptMachine
