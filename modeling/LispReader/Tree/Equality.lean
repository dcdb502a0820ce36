import LispReader.Tree.Basic

/-!
# Equality of trees

Two trees are equal if they agree in shape, names, operators, constants and positions. The
comparison is a Boolean function; `Expr.same_iff` and `Stmt.same_iff` say that it decides equality.
-/

namespace LispReader

mutual

def Expr.same : Expr → Expr → Bool
  | .constant a, .constant b => a = b
  | .name a, .name b => a = b
  | .group a, .group b => a.same b
  | .negate p a, .negate q b => p = q && a.same b
  | .binary o p a b, .binary o' p' a' b' => o = o' && p = p' && a.same a' && b.same b'
  | .assign s a, .assign t b => s = t && a.same b
  | .call f p as, .call g q bs => f.same g && p = q && Expr.sameList as bs
  | .get a s, .get b t => a.same b && s = t
  | .set a s v, .set b t w => a.same b && s = t && v.same w
  | _, _ => false

def Expr.sameList : List Expr → List Expr → Bool
  | [], [] => true
  | a :: as, b :: bs => a.same b && Expr.sameList as bs
  | _, _ => false

end

mutual

theorem Expr.same_iff : ∀ a b : Expr, a.same b = true ↔ a = b
  | .constant _, b => by cases b <;> simp [Expr.same]
  | .name _, b => by cases b <;> simp [Expr.same]
  | .group a, b => by cases b <;> simp [Expr.same, Expr.same_iff a]
  | .negate _ a, b => by cases b <;> simp [Expr.same, Expr.same_iff a]
  | .binary _ _ a c, b => by
    cases b <;> simp [Expr.same, Expr.same_iff a, Expr.same_iff c, and_assoc]
  | .assign _ a, b => by cases b <;> simp [Expr.same, Expr.same_iff a]
  | .call f _ as, b => by
    cases b <;> simp [Expr.same, Expr.same_iff f, Expr.sameList_iff as, and_assoc]
  | .get a _, b => by cases b <;> simp [Expr.same, Expr.same_iff a]
  | .set a _ v, b => by
    cases b <;> simp [Expr.same, Expr.same_iff a, Expr.same_iff v, and_assoc]

theorem Expr.sameList_iff : ∀ as bs : List Expr, Expr.sameList as bs = true ↔ as = bs
  | [], bs => by cases bs <;> simp [Expr.sameList]
  | a :: as, bs => by cases bs <;> simp [Expr.sameList, Expr.same_iff a, Expr.sameList_iff as]

end

instance : DecidableEq Expr := fun a b => decidable_of_iff _ (Expr.same_iff a b)

mutual

def Stmt.same : Stmt → Stmt → Bool
  | .expr a, .expr b => a = b
  | .define s a, .define t b => s = t && a = b
  | .function s ps as, .function t qs bs => s = t && ps = qs && Stmt.sameList as bs
  | .cond c a, .cond d b => c = d && a.same b
  | .condElse c a a', .condElse d b b' => c = d && a.same b && a'.same b'
  | .print a, .print b => a = b
  | .block as, .block bs => Stmt.sameList as bs
  | .ret p a, .ret q b => p = q && a = b
  | .loop c a, .loop d b => c = d && a.same b
  | _, _ => false

def Stmt.sameList : List Stmt → List Stmt → Bool
  | [], [] => true
  | a :: as, b :: bs => a.same b && Stmt.sameList as bs
  | _, _ => false

end

mutual

theorem Stmt.same_iff : ∀ a b : Stmt, a.same b = true ↔ a = b
  | .expr _, b => by cases b <;> simp [Stmt.same]
  | .define _ _, b => by cases b <;> simp [Stmt.same]
  | .function _ _ as, b => by cases b <;> simp [Stmt.same, Stmt.sameList_iff as, and_assoc]
  | .cond _ a, b => by cases b <;> simp [Stmt.same, Stmt.same_iff a]
  | .condElse _ a c, b => by
    cases b <;> simp [Stmt.same, Stmt.same_iff a, Stmt.same_iff c, and_assoc]
  | .print _, b => by cases b <;> simp [Stmt.same]
  | .block as, b => by cases b <;> simp [Stmt.same, Stmt.sameList_iff as]
  | .ret _ _, b => by cases b <;> simp [Stmt.same]
  | .loop _ a, b => by cases b <;> simp [Stmt.same, Stmt.same_iff a]

theorem Stmt.sameList_iff : ∀ as bs : List Stmt, Stmt.sameList as bs = true ↔ as = bs
  | [], bs => by cases bs <;> simp [Stmt.sameList]
  | a :: as, bs => by cases bs <;> simp [Stmt.sameList, Stmt.same_iff a, Stmt.sameList_iff as]

end

instance : DecidableEq Stmt := fun a b => decidable_of_iff _ (Stmt.same_iff a b)

end LispReader
