import BeautyAwg.Lib.Json

/-!
# `JsValue`: JSON in a program that may throw

What a program does with a value of unknown shape: it reads a property, calls a method of arrays, lists the
entries. Each of these throws on some values, so a check has to come before it. A property's name here is one
that arrays, texts and prototypes do not have.
-/

namespace JsValue

open Json

/-- What an operation throws at a value it is not made for. -/
inductive TypeError where
  | noProperties
  | notFunction (method : String)
  deriving DecidableEq, Repr

/-- A value, or `undefined`. -/
abbrev Value := Option Json

/-- The answers of `typeof`. -/
inductive Kind where
  | undefined
  | object
  | boolean
  | number
  | string
  deriving DecidableEq, Repr

/-- `typeof`, on what a JSON text can hold or a missing property. -/
def typeOf : Value → Kind
  | none => .undefined
  | some null | some (arr _) | some (obj _) => .object
  | some (.bool _) => .boolean
  | some (num _) => .number
  | some (str _) => .string

/-- The value counts as true in a condition. -/
def truthy : Value → Bool
  | none | some null => false
  | some (.bool b) => b
  | some (num x) => x ≠ 0
  | some (str s) => s ≠ ""
  | some (arr _) | some (obj _) => true

/-- `Array.isArray`. -/
def isArray : Value → Bool
  | some (arr _) => true
  | _ => false

/-- `v.k` -/
def get (v : Value) (k : String) : Except TypeError Value :=
  match v with
  | none | some null => .error .noProperties
  | some (obj fields) => .ok (fields.lookup k)
  | _ => .ok none

/-- `v.every(p)` -/
def every (v : Value) (p : Json → Bool) : Except TypeError Bool :=
  match v with
  | none | some null => .error .noProperties
  | some (arr xs) => .ok (xs.all p)
  | _ => .error (.notFunction "every")

/-- The loop of `filter`, with a predicate that can throw. -/
def filterLoop (p : Json → Except TypeError Bool) : List Json → Except TypeError (List Json)
  | [] => .ok []
  | x :: xs => do
    let keep ← p x
    let rest ← filterLoop p xs
    return if keep then x :: rest else rest

/-- `v.filter(p)` -/
def filter (v : Value) (p : Json → Except TypeError Bool) : Except TypeError (List Json) :=
  match v with
  | none | some null => .error .noProperties
  | some (arr xs) => filterLoop p xs
  | _ => .error (.notFunction "filter")

/-- `Object.entries(v)` -/
def entries : Value → Except TypeError (List (String × Json))
  | none | some null => .error .noProperties
  | some v => .ok v.entries

/-- `o[k] = v` on an object: the name `__proto__` makes no property. -/
def assign (fields : List (String × Json)) (k : String) (v : Json) : List (String × Json) :=
  if k = "__proto__" then fields else setField fields k v

/-- The two checks together leave objects and arrays. -/
theorem object_cases (v : Json) :
    (truthy (some v) = false ∨ typeOf (some v) ≠ .object) ∧ (∀ fields, v ≠ obj fields) ∧ (∀ xs, v ≠ arr xs) ∨
      ¬ (truthy (some v) = false ∨ typeOf (some v) ≠ .object) ∧ ((∃ fields, v = obj fields) ∨ ∃ xs, v = arr xs) := by
  cases v with
  | arr xs => exact .inr ⟨by simp [truthy, typeOf], .inr ⟨xs, rfl⟩⟩
  | obj fields => exact .inr ⟨by simp [truthy, typeOf], .inl ⟨fields, rfl⟩⟩
  | null => exact .inl ⟨.inl rfl, by simp, by simp⟩
  | bool | num | str => exact .inl ⟨.inr (by simp [typeOf]), by simp, by simp⟩

/-- A loop whose test never throws is the list's own filter. -/
theorem filterLoop_ok {p : Json → Except TypeError Bool} {q : Json → Bool} (h : ∀ v, p v = .ok (q v))
    (xs : List Json) : filterLoop p xs = .ok (xs.filter q) := by
  induction xs with
  | nil => rfl
  | cons x xs ih =>
    rw [filterLoop, h, ih, List.filter_cons]
    rfl

end JsValue
