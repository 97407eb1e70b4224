/-
  Descent.Proofs.Untraced

  Values up to the traces inside them.  No named function, no named condition and nothing else that
  is done with values looks into a trace: it comes out the same, up to traces, whichever traces are
  in the values it is given.
-/
import Mathlib.Data.List.Forall2
import Descent.Recipe.Build

namespace Descent.Value

mutual

/-- The value with every trace in it replaced by the empty one. -/
def untraced : Value → Value
  | .trace _ => .trace []
  | .list items => .list (untracedList items)
  | .pair first second => .pair first.untraced second.untraced
  | .present v => .present v.untraced
  | .unit => .unit
  | .bool b => .bool b
  | .int n => .int n
  | .text s => .text s
  | .absent => .absent
  | .element e => .element e

def untracedList : List Value → List Value
  | [] => []
  | v :: vs => v.untraced :: untracedList vs

end

theorem untracedList_eq (vs : List Value) : untracedList vs = vs.map untraced := by
  induction vs with
  | nil => rfl
  | cons v vs ih => rw [untracedList, ih, List.map_cons]

/-- The same but for the traces inside. -/
def Like (v v' : Value) : Prop := v.untraced = v'.untraced

theorem Like.list {vs vs' : List Value} (h : List.Forall₂ Like vs vs') :
    Like (.list vs) (.list vs') := by
  rw [Like, untraced, untraced]
  congr 1
  induction h with
  | nil => rfl
  | cons hv _ ih => rw [untracedList, untracedList, hv, ih]

/-! ### What does not look at traces -/

mutual

theorem prependChars_untraced : (v : Value) → (after : List Char) →
    v.untraced.prependChars after = v.prependChars after
  | .list items, after => prependCharsList_untraced items after
  | .pair first second, after => by
    rw [untraced, prependChars, prependChars, prependChars_untraced second,
      prependChars_untraced first]
  | .present v, after => prependChars_untraced v after
  | .unit, _ | .bool _, _ | .int _, _ | .text _, _ | .absent, _ | .element _, _ | .trace _, _ => rfl

theorem prependCharsList_untraced : (vs : List Value) → (after : List Char) →
    prependCharsList (untracedList vs) after = prependCharsList vs after
  | [], _ => rfl
  | v :: vs, after => by
    rw [untracedList, prependCharsList, prependCharsList, prependCharsList_untraced vs,
      prependChars_untraced v]

end

mutual

theorem prependIntegers_untraced : (v : Value) → (after : List Int64) →
    v.untraced.prependIntegers after = v.prependIntegers after
  | .list items, after => prependIntegersList_untraced items after
  | .pair first second, after => by
    rw [untraced, prependIntegers, prependIntegers, prependIntegers_untraced second,
      prependIntegers_untraced first]
  | .present v, after => prependIntegers_untraced v after
  | .unit, _ | .bool _, _ | .int _, _ | .text _, _ | .absent, _ | .element _, _ | .trace _, _ => rfl

theorem prependIntegersList_untraced : (vs : List Value) → (after : List Int64) →
    prependIntegersList (untracedList vs) after = prependIntegersList vs after
  | [], _ => rfl
  | v :: vs, after => by
    rw [untracedList, prependIntegersList, prependIntegersList, prependIntegersList_untraced vs,
      prependIntegers_untraced v]

end

mutual

theorem depth_untraced : (v : Value) → v.untraced.depth = v.depth
  | .list items => congrArg (1 + ·) (depthList_untraced items)
  | .pair first second => by
    rw [untraced, depth, depth, depth_untraced first, depth_untraced second]
  | .present v => congrArg (1 + ·) (depth_untraced v)
  | .unit | .bool _ | .int _ | .text _ | .absent | .element _ | .trace _ => rfl

theorem depthList_untraced : (vs : List Value) → depthList (untracedList vs) = depthList vs
  | [] => rfl
  | v :: vs => by
    rw [untracedList, depthList, depthList, depth_untraced v, depthList_untraced vs]

end

@[simp] theorem chars_untraced (v : Value) : v.untraced.chars = v.chars :=
  prependChars_untraced v []

@[simp] theorem integers_untraced (v : Value) : v.untraced.integers = v.integers :=
  prependIntegers_untraced v []

theorem Like.chars_eq {v v' : Value} (h : Like v v') : v.chars = v'.chars := by
  rw [← chars_untraced v, h, chars_untraced]

theorem items_untraced (v : Value) : v.untraced.items = untracedList v.items := by
  cases v with
  | list items | present v | unit | bool | int | text | pair | absent | element | trace => rfl

theorem charsList_untraced (vs : List Value) : charsList (untracedList vs) = charsList vs :=
  prependCharsList_untraced vs []

/-- A function does the same to a value with traces and to one without. -/
theorem Function.apply_untraced : (f : Function) → (v : Value) →
    (f.apply v).untraced = f.apply v.untraced
  | .identity, _ | .wrap, _ => rfl
  | .upper, v | .succ, v | .swap, v | .first, v | .second, v | .unwrap, v => by cases v <;> rfl
  | .length, v => by
    cases v with
    | list items =>
      rw [untraced, Function.apply, Function.apply, untracedList_eq, List.length_map, untraced]
    | unit | bool | int | text | pair | absent | present | element | trace => rfl
  | .concat, v => by rw [Function.apply, Function.apply, chars_untraced, untraced]
  | .int, v => by
    rw [Function.apply, Function.apply, chars_untraced]
    cases int? v.chars <;> rfl
  | .sum, v | .product, v => by
    rw [Function.apply, Function.apply, integers_untraced, untraced]
  | .cons, v => by
    cases v with
    | pair first second => cases second <;> rfl
    | unit | bool | int | text | list | absent | present | element | trace => rfl
  | .depth, v => by rw [Function.apply, Function.apply, depth_untraced, untraced]
  | .attribute key, v => by
    cases v with
    | element e =>
      rw [untraced, Function.apply]
      cases e.attribute? key <;> rfl
    | unit | bool | int | text | list | pair | absent | present | trace => rfl

theorem Function.apply_like (f : Function) {v v' : Value} (h : Like v v') :
    Like (f.apply v) (f.apply v') := by
  rw [Like, Function.apply_untraced, Function.apply_untraced, h]

/-- A condition holds for a value with traces when it holds for it without. -/
theorem Condition.holds_untraced (c : Condition) (v : Value) :
    c.holds v.untraced = c.holds v := by
  cases c with
  | always | never => rfl
  | digit | alpha | lower | among s | outside s => simp only [Condition.holds, all, chars_untraced]
  | equal s | unequal s | longerOrEqual n => simp only [Condition.holds, chars_untraced]
  | even => cases v <;> rfl

theorem Condition.holds_like (c : Condition) {v v' : Value} (h : Like v v') :
    c.holds v = c.holds v' := by
  rw [← c.holds_untraced v, h, c.holds_untraced]

theorem collect_like (c : Collection) {v v' : Value} (h : Like v v') :
    Like (c.apply v) (c.apply v') := by
  have hitems : untracedList v.items = untracedList v'.items := by
    rw [← items_untraced, h, items_untraced]
  cases c with
  | list => exact congrArg Value.list hitems
  | text =>
    have hchars : charsList v.items = charsList v'.items := by
      rw [← charsList_untraced, hitems, charsList_untraced]
    rw [Like, Collection.apply, Collection.apply, hchars]

theorem Like.count_eq {v v' : Value} (h : Like v v') : v.count = v'.count := by
  rw [Value.count, Value.count, h.chars_eq]

/-! ### Values without traces -/

mutual

/-- There is no trace in the value. -/
def NoTrace : Value → Prop
  | .trace _ => False
  | .list items => NoTraceList items
  | .pair first second => first.NoTrace ∧ second.NoTrace
  | .present v => v.NoTrace
  | .unit | .bool _ | .int _ | .text _ | .absent | .element _ => True

def NoTraceList : List Value → Prop
  | [] => True
  | v :: vs => v.NoTrace ∧ NoTraceList vs

end

mutual

theorem NoTrace.untraced_eq : {v : Value} → v.NoTrace → v.untraced = v
  | .list _, h => congrArg Value.list (NoTraceList.untracedList_eq h)
  | .pair _ _, h => by rw [untraced, NoTrace.untraced_eq h.1, NoTrace.untraced_eq h.2]
  | .present _, h => congrArg Value.present (NoTrace.untraced_eq h)
  | .unit, _ | .bool _, _ | .int _, _ | .text _, _ | .absent, _ | .element _, _ => rfl
  | .trace _, h => h.elim

theorem NoTraceList.untracedList_eq : {vs : List Value} → NoTraceList vs → untracedList vs = vs
  | [], _ => rfl
  | _ :: _, h => by
    rw [untracedList, NoTrace.untraced_eq h.1, NoTraceList.untracedList_eq h.2]

end

mutual

theorem noTrace_of_untraced : {v : Value} → v.untraced.NoTrace → v.NoTrace
  | .list _, h => noTraceList_of_untraced h
  | .pair _ _, h => ⟨noTrace_of_untraced h.1, noTrace_of_untraced h.2⟩
  | .present v, h => noTrace_of_untraced (v := v) h
  | .unit, _ | .bool _, _ | .int _, _ | .text _, _ | .absent, _ | .element _, _ => trivial
  | .trace _, h => h.elim

theorem noTraceList_of_untraced : {vs : List Value} → NoTraceList (untracedList vs) → NoTraceList vs
  | [], _ => trivial
  | _ :: _, h => ⟨noTrace_of_untraced h.1, noTraceList_of_untraced h.2⟩

end

end Descent.Value
