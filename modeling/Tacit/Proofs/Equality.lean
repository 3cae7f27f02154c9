import Mathlib
import Tacit.Proofs.Mismatches

/-!
# Equal values

Numbers are equal as quantities, or as the very same outcome without one; functions are equal by
identity; strings, truth values and arrays are equal by what they are made of. All the same,
equality is an equivalence: a number that is no quantity is equal to nothing but itself, so it is a
class of its own.

A host holds values at addresses and finds what is at one address equal at once, without looking at
it (`Object.same`). Of all the addresses only those of numbers that are no quantities can be told
from equality, and these are the marks (`Object.same_eq`).

An identity stands for one function (`Value.In`). So equal values have the same type and count alike
as true, and a parameter takes both, or both once they have their own operands, or neither
(`equal_respected`).
-/

namespace Tacit

open Builtin (Applier)

namespace Number

theorem same_self : ∀ n : Number, n.same n = true
  | real _ h => h
  | nan i => beq_self_eq_true i

theorem same_comm : ∀ m n : Number, m.same n = n.same m
  | real _ _, real _ _ => BEq.comm
  | nan _, nan _ => BEq.comm
  | real _ _, nan _ | nan _, real _ _ => rfl

theorem same_trans : ∀ {l m n : Number}, l.same m = true → m.same n = true → l.same n = true
  | real _ _, real _ _, real _ _, h, h' => BEq.trans h h'
  | nan _, nan _, nan _, h, h' => BEq.trans h h'
  | real _ _, nan _, _, h, _ | nan _, real _ _, _, h, _ => by cases h
  | real _ _, real _ _, nan _, _, h | nan _, nan _, real _ _, _, h => by cases h

theorem isTruthy_of_same : ∀ {m n : Number}, m.same n = true → m.isTruthy = n.isTruthy
  | real _ _, real _ _, h => congrArg not (BEq.congr_left h)
  | nan _, nan _, _ => rfl
  | real _ _, nan _, h | nan _, real _ _, h => by cases h

/-- With different marks two outcomes are the same number exactly if they are equal quantities, as
what is equal to anything is a quantity. -/
theorem same_ofFloat {a b : Nat} (hab : a ≠ b) (x y : Float) :
    (ofFloat a x).same (ofFloat b y) = (x == y) := by
  unfold ofFloat
  split_ifs with hx hy hy
  · rfl
  · have hne : ¬ (x == y) = true := fun h => hy (BEq.trans (BEq.symm h) h)
    exact (Bool.eq_false_of_not_eq_true hne).symm
  · have hne : ¬ (x == y) = true := fun h => hx (BEq.trans h (BEq.symm h))
    exact (Bool.eq_false_of_not_eq_true hne).symm
  · have hne : ¬ (x == y) = true := fun h => hx (BEq.trans h (BEq.symm h))
    rw [Bool.eq_false_of_not_eq_true hne]
    exact beq_eq_false_iff_ne.2 hab

end Number

namespace Value

mutual

theorem equal_self : ∀ v : Value, v.equal v = true
  | .num n => by
    simp only [equal]
    exact n.same_self
  | .array cells => by
    simp only [equal]
    exact equalAll_self cells
  | .str _ | .bool _ | .func _ | .invalid _ => by simp [equal]

theorem equalAll_self : ∀ vs : List Value, equalAll vs vs = true
  | [] => by simp [equalAll]
  | v :: vs => by
    simp only [equalAll, Bool.and_eq_true]
    exact ⟨equal_self v, equalAll_self vs⟩

end

mutual

theorem equal_comm : ∀ v w : Value, v.equal w = w.equal v
  | .array xs, w => by
    cases w with
    | array ys =>
      simp only [equal]
      exact equalAll_comm xs ys
    | _ => simp [equal]
  | .num m, w => by
    cases w with
    | num n =>
      simp only [equal]
      exact m.same_comm n
    | _ => simp [equal]
  | .str _, w | .bool _, w | .func _, w | .invalid _, w => by
    cases w <;> simp [equal, BEq.comm]

theorem equalAll_comm : ∀ vs ws : List Value, equalAll vs ws = equalAll ws vs
  | [], [] => rfl
  | [], _ :: _ | _ :: _, [] => by simp [equalAll]
  | v :: vs, w :: ws => by
    simp only [equalAll]
    rw [equal_comm v w, equalAll_comm vs ws]

end

mutual

/-- Equality is transitive. -/
theorem equal_trans : ∀ {u v w : Value}, u.equal v = true → v.equal w = true → u.equal w = true
  | .array xs, v, w, h, h' => by
    cases v with
    | array ys =>
      cases w with
      | array zs =>
        simp only [equal] at h h' ⊢
        exact equalAll_trans h h'
      | _ => simp [equal] at h'
    | _ => simp [equal] at h
  | .num l, v, w, h, h' => by
    cases v with
    | num m =>
      cases w with
      | num n =>
        simp only [equal] at h h' ⊢
        exact Number.same_trans h h'
      | _ => simp [equal] at h'
    | _ => simp [equal] at h
  | .str _, v, w, h, h' | .bool _, v, w, h, h' | .func _, v, w, h, h' | .invalid _, v, w, h, h' => by
    cases v <;> cases w <;> simp_all [equal]

theorem equalAll_trans : ∀ {us vs ws : List Value}, equalAll us vs = true →
    equalAll vs ws = true → equalAll us ws = true
  | [], [], [], _, _ => rfl
  | [], _ :: _, _, h, _ | _ :: _, [], _, h, _ => by simp [equalAll] at h
  | [], [], _ :: _, _, h | _ :: _, _ :: _, [], _, h => by simp [equalAll] at h
  | u :: us, v :: vs, w :: ws, h, h' => by
    simp only [equalAll, Bool.and_eq_true] at h h' ⊢
    exact ⟨equal_trans h.1 h'.1, equalAll_trans h.2 h'.2⟩

end

end Value

/-- A value as a host holds it, at an address. -/
inductive Object where
  | num (address : Nat) (x : Float)
  | str (address : Nat) (s : Text)
  | bool (address : Nat) (b : Bool)
  | array (address : Nat) (cells : List Object)
  | func (address : Nat) (f : Function)

namespace Object

def address : Object → Nat
  | num a _ | str a _ | bool a _ | array a _ | func a _ => a

def cells : Object → List Object
  | array _ cells => cells
  | _ => []

mutual

/-- Whether two objects are at one address, or else made of the same. -/
def same : Object → Object → Bool
  | num a x, num b y => a == b || x == y
  | str a s, str b t => a == b || s == t
  | bool a x, bool b y => a == b || x == y
  | array a xs, array b ys => a == b || sameAll xs ys
  | func a f, func b g => a == b || f.identity == g.identity
  | o, p => o.address == p.address

/-- Whether two lists of objects are the same member by member. -/
def sameAll : List Object → List Object → Bool
  | [], [] => true
  | o :: os, p :: ps => same o p && sameAll os ps
  | _, _ => false

end

mutual

/-- The value that an object is; a number that is no quantity is marked by the address. -/
def value : Object → Value
  | num a x => .num (.ofFloat a x)
  | str _ s => .str s
  | bool _ b => .bool b
  | array _ cells => .array (valueAll cells)
  | func _ f => .func f

/-- The values of objects, in order. -/
def valueAll : List Object → List Value
  | [] => []
  | o :: os => value o :: valueAll os

end

/-- An object that is in a store, with all it is made of. -/
inductive In (store : Nat → Object) : Object → Prop where
  | mk {o : Object} (here : store o.address = o) (cells : ∀ c ∈ o.cells, In store c) : In store o

theorem In.here {store : Nat → Object} {o : Object} (h : o.In store) : store o.address = o := by
  cases h
  assumption

theorem In.of_mem {store : Nat → Object} {o c : Object} (h : o.In store) (hc : c ∈ o.cells) :
    c.In store := by
  cases h with
  | mk _ hcells => exact hcells c hc

section Store

variable {store : Nat → Object}

theorem same_self (o : Object) : o.same o = true := by
  cases o <;> simp [same]

/-- At one address is one object. -/
theorem same_eq_of_address {o p : Object} (ho : o.In store) (hp : p.In store)
    (h : o.address = p.address) : o.same p = o.value.equal p.value := by
  obtain rfl : o = p := by rw [← ho.here, h, hp.here]
  rw [same_self, Value.equal_self]

mutual

/-- Objects of one store are the same exactly if their values are equal. -/
theorem same_eq : ∀ {o p : Object}, o.In store → p.In store → o.same p = o.value.equal p.value
  | .array a xs, p, ho, hp => by
    by_cases hab : a = p.address
    · exact same_eq_of_address ho hp hab
    · cases p with
      | array b ys =>
        have haddress : (a == b) = false := beq_eq_false_iff_ne.2 hab
        simp only [same, value, Value.equal, haddress, Bool.false_or]
        exact sameAll_eq (fun _ h => ho.of_mem h) (fun _ h => hp.of_mem h)
      | _ => exact beq_eq_false_iff_ne.2 hab
  | .num a x, p, ho, hp => by
    by_cases hab : a = p.address
    · exact same_eq_of_address ho hp hab
    · cases p with
      | num b y =>
        have haddress : (a == b) = false := beq_eq_false_iff_ne.2 hab
        simp only [same, value, Value.equal, haddress, Bool.false_or]
        exact (Number.same_ofFloat hab x y).symm
      | _ => exact beq_eq_false_iff_ne.2 hab
  | .str a _, p, ho, hp | .bool a _, p, ho, hp | .func a _, p, ho, hp => by
    by_cases hab : a = p.address
    · exact same_eq_of_address ho hp hab
    · cases p <;> simp_all [same, value, Value.equal, address]

theorem sameAll_eq : ∀ {os ps : List Object}, (∀ o ∈ os, o.In store) → (∀ p ∈ ps, p.In store) →
    sameAll os ps = Value.equalAll (valueAll os) (valueAll ps)
  | [], [], _, _ => rfl
  | [], _ :: _, _, _ | _ :: _, [], _, _ => by simp [sameAll, valueAll, Value.equalAll]
  | o :: os, p :: ps, ho, hp => by
    simp only [sameAll, valueAll, Value.equalAll]
    rw [same_eq (ho o (by simp)) (hp p (by simp)),
      sameAll_eq (fun o h => ho o (by simp [h])) (fun p h => hp p (by simp [h]))]

end

end Store

end Object

/-! ## What equal values have in common -/

/-- A value whose functions, those in arrays too, are the ones that their identities stand for. -/
inductive Value.In (functions : Identity → Function) : Value → Prop where
  | num (n : Number) : In functions (.num n)
  | str (s : Text) : In functions (.str s)
  | bool (b : Bool) : In functions (.bool b)
  | array {cells : List Value} (h : ∀ v ∈ cells, In functions v) : In functions (.array cells)
  | func {f : Function} (h : functions f.identity = f) : In functions (.func f)
  | invalid (mark : Nat) : In functions (.invalid mark)

section Functions

variable {functions : Identity → Function}

namespace Value

theorem func_of_equal {f : Function} {w : Value} (hf : In functions (.func f))
    (hw : w.In functions) (h : equal (.func f) w = true) : w = .func f := by
  cases w with
  | func g =>
    have hid : f.identity = g.identity := by simpa [equal] using h
    cases hf with
    | func hf =>
      cases hw with
      | func hg => rw [← hf, hid, hg]
  | _ => simp [equal] at h

theorem type_of_equal : ∀ {v w : Value}, v.In functions → w.In functions → v.equal w = true →
    v.type = w.type
  | .array xs, w, hv, hw, h => by
    cases w with
    | array ys =>
      match xs, ys with
      | [], [] => rfl
      | [], _ :: _ | _ :: _, [] => simp [equal, equalAll] at h
      | x :: xs, y :: ys =>
        simp only [equal, equalAll, Bool.and_eq_true] at h
        cases hv with
        | array hx =>
          cases hw with
          | array hy =>
            have hfirst := type_of_equal (hx x (by simp)) (hy y (by simp)) h.1
            simp only [type, hfirst]
    | _ => simp [equal] at h
  | .func f, w, hv, hw, h => by rw [func_of_equal hv hw h]
  | .num _, w, _, _, h | .str _, w, _, _, h | .bool _, w, _, _, h | .invalid _, w, _, _, h => by
    cases w <;> simp_all [equal, type]

theorem isTruthy_of_equal {v w : Value} (h : v.equal w = true) : v.isTruthy = w.isTruthy := by
  cases v with
  | num m =>
    cases w with
    | num n => exact Number.isTruthy_of_same (by simpa only [equal] using h)
    | _ => simp [equal] at h
  | array xs =>
    cases w with
    | array ys => cases xs <;> cases ys <;> simp_all [equal, equalAll, isTruthy]
    | _ => simp [equal] at h
  | _ => cases w <;> simp_all [equal, isTruthy]

end Value

/-- What taking `v` and taking `w` comes to, where it comes to the same: each is taken as it is, one
function is left pending or, being without operands, gives a value or stops for both, or neither
fits. -/
inductive TakenAlike (fn : Function) (position : Nat) (p : TypeDesc) (v w : Value) :
    EStateM.Result Stop World Slot → EStateM.Result Stop World Slot → Prop where
  | accepted (s : World) : TakenAlike fn position p v w (.ok (.value v) s) (.ok (.value w) s)
  | pending (f : Function) (s : World) :
      TakenAlike fn position p v w (.ok (.pending f) s) (.ok (.pending f) s)
  | computed (x : Value) (s : World) :
      TakenAlike fn position p v w (.ok (.value x) s) (.ok (.value x) s)
  | stopped (e : Stop) (s : World) : TakenAlike fn position p v w (.error e s) (.error e s)
  | rejected (s : World) : TakenAlike fn position p v w
      (.error (.fault (.mismatch none fn.text position p v.type (some v.text))) s)
      (.error (.fault (.mismatch none fn.text position p w.type (some w.text))) s)

section Classify

variable (call : Applier) (fn : Function) (position : Nat) (p : TypeDesc)

theorem TakenAlike.self (v w : Value) : ∀ r, TakenAlike fn position p v w r r
  | .ok (.value x) s => .computed x s
  | .ok (.pending f) s => .pending f s
  | .error e s => .stopped e s

theorem Value.fits_congr {v w : Value} (hv : ∀ f, v ≠ .func f) (hw : ∀ f, w ≠ .func f)
    (h : v.type = w.type) : v.fits p = w.fits p := by
  cases v <;> cases w <;> simp_all [Value.fits]

/-- Equal values are taken alike: equal functions are one function, which is taken or run in one
way, and of anything else only the type decides. -/
theorem classify_alike {v w : Value} (hv : v.In functions) (hw : w.In functions)
    (h : v.equal w = true) (s : World) :
    TakenAlike fn position p v w (classify call fn position p v s)
      (classify call fn position p w s) := by
  by_cases hfunc : ∃ f, v = .func f
  · obtain ⟨f, rfl⟩ := hfunc
    rw [Value.func_of_equal hv hw h]
    exact .self fn position p _ _ _
  · have hv' : ∀ f, v ≠ .func f := fun f hf => hfunc ⟨f, hf⟩
    have hw' : ∀ f, w ≠ .func f := by
      rintro f rfl
      exact hv' f (Value.func_of_equal hw hv (by rwa [Value.equal_comm]))
    have htype := Value.type_of_equal hv hw h
    have hfits := Value.fits_congr p hv' hw' htype
    cases hp : v.fits p with
    | true =>
      rw [classify_of_fits call fn position hp, classify_of_fits call fn position (hfits ▸ hp)]
      exact .accepted s
    | false =>
      rw [classify_of_not_pends call fn position hp fun g hg => hv' g hg.eq,
        classify_of_not_pends call fn position (hfits ▸ hp) fun g hg => hw' g hg.eq]
      exact .rejected s

end Classify

end Functions

/-- Equality is an equivalence, and objects of one store are the same just if their values are
equal. Equal values are of the same type and count alike as true, and any parameter of any function
takes both alike. -/
theorem Value.equal_respected (store : Nat → Object) (functions : Identity → Function) :
    (∀ v : Value, v.equal v = true) ∧
    (∀ v w : Value, v.equal w = true → w.equal v = true) ∧
    (∀ u v w : Value, u.equal v = true → v.equal w = true → u.equal w = true) ∧
    (∀ o p : Object, o.In store → p.In store → o.same p = o.value.equal p.value) ∧
    ∀ v w : Value, v.In functions → w.In functions → v.equal w = true →
      v.type.same w.type = true ∧ v.isTruthy = w.isTruthy ∧
      ∀ (call : Applier) (fn : Function) (position : Nat) (p : TypeDesc) (s : World),
        TakenAlike fn position p v w (classify call fn position p v s)
          (classify call fn position p w s) := by
  refine ⟨equal_self, fun v w h => by rwa [equal_comm], fun u v w => equal_trans,
    fun o p => Object.same_eq, fun v w hv hw h => ⟨?_, isTruthy_of_equal h, ?_⟩⟩
  · rw [type_of_equal hv hw h]
    exact TypeDesc.same_self _
  · exact fun call fn position p => classify_alike call fn position p hv hw h

/-- Zeros of either sign are equal, and so are arrays that hold one outcome without a quantity. -/
theorem Value.equal_respected_zeros :
    Object.same (.array 1 [.num 0 (0 / 0)]) (.array 2 [.num 0 (0 / 0)]) = true ∧
    ∀ (call : Applier) (fn : Function) (position : Nat) (p : TypeDesc) (s : World),
      TakenAlike fn position p
        (.array [.num (.ofFloat 0 0), .num (.nan 7), .func Builtin.length.function])
        (.array [.num (.ofFloat 0 (-0)), .num (.nan 7), .func Builtin.length.function])
        (classify call fn position p
          (.array [.num (.ofFloat 0 0), .num (.nan 7), .func Builtin.length.function]) s)
        (classify call fn position p
          (.array [.num (.ofFloat 0 (-0)), .num (.nan 7), .func Builtin.length.function]) s) := by
  obtain ⟨-, -, -, hsame, halike⟩ := Value.equal_respected
    (fun a => if a = 0 then .num 0 (0 / 0) else .array a [.num 0 (0 / 0)])
    (fun _ => Builtin.length.function)
  have hnum : Object.In (fun a => if a = 0 then .num 0 (0 / 0) else .array a [.num 0 (0 / 0)])
      (.num 0 (0 / 0)) := .mk rfl nofun
  have hin : ∀ x y, Value.In (fun _ => Builtin.length.function)
      (.array [.num x, .num y, .func Builtin.length.function]) := by
    intro x y
    refine .array fun v hv => ?_
    simp only [List.mem_cons, List.not_mem_nil, or_false] at hv
    rcases hv with rfl | rfl | rfl
    · exact .num x
    · exact .num y
    · exact .func rfl
  constructor
  · rw [hsame _ _ (.mk rfl (by simpa [Object.cells] using hnum))
      (.mk rfl (by simpa [Object.cells] using hnum))]
    decide +kernel
  · exact (halike _ _ (hin _ _) (hin _ _) (by decide +kernel)).2.2

end Tacit
