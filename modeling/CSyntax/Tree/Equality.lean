import CSyntax.Tree.Expr

/-!
# Equality — types and expressions compared part by part

`CType.same` and `Expr.same` compare two trees in all their parts, positions included.  They hold
of equal trees only, which makes equality of types and expressions decidable.
-/

namespace CSyntax

mutual

def CType.same : CType → CType → Bool
  | .named a, .named b => a = b
  | .pointer a, .pointer b => a.same b
  | .array a m, .array b n => a.same b && Expr.sameOption m n
  | .function a ps u, .function b qs v => a.same b && CType.sameList ps qs && u = v
  | .record j s ms, .record k t ns => j = k && s = t && Member.sameOption ms ns
  | .enumeration s es, .enumeration t fs => s = t && Enumerator.sameOption es fs
  | _, _ => false

def CType.sameList : List CType → List CType → Bool
  | [], [] => true
  | a :: as, b :: bs => a.same b && CType.sameList as bs
  | _, _ => false

def Member.same : Member → Member → Bool
  | ⟨m, a⟩, ⟨n, b⟩ => m = n && a.same b

def Member.sameList : List Member → List Member → Bool
  | [], [] => true
  | a :: as, b :: bs => a.same b && Member.sameList as bs
  | _, _ => false

def Member.sameOption : Option (List Member) → Option (List Member) → Bool
  | none, none => true
  | some as, some bs => Member.sameList as bs
  | _, _ => false

def Enumerator.same : Enumerator → Enumerator → Bool
  | ⟨m, a⟩, ⟨n, b⟩ => m = n && Expr.sameOption a b

def Enumerator.sameList : List Enumerator → List Enumerator → Bool
  | [], [] => true
  | a :: as, b :: bs => a.same b && Enumerator.sameList as bs
  | _, _ => false

def Enumerator.sameOption : Option (List Enumerator) → Option (List Enumerator) → Bool
  | none, none => true
  | some as, some bs => Enumerator.sameList as bs
  | _, _ => false

def Expr.same : Expr → Expr → Bool
  | .identifier p a, .identifier q b => p = q && a = b
  | .integer p a, .integer q b => p = q && a = b
  | .floating p a, .floating q b => p = q && a = b
  | .character p a, .character q b => p = q && a = b
  | .string p a, .string q b => p = q && a = b
  | .call p a as, .call q b bs => p = q && a.same b && Expr.sameList as bs
  | .unary p f a, .unary q g b => p = q && f = g && a.same b
  | .binary p f a c, .binary q g b d => p = q && f = g && a.same b && c.same d
  | .index p a c, .index q b d => p = q && a.same b && c.same d
  | .member p a m u, .member q b n v => p = q && a.same b && m = n && u = v
  | .assign p f a c, .assign q g b d => p = q && f = g && a.same b && c.same d
  | .conditional p a c e, .conditional q b d f => p = q && a.same b && c.same d && e.same f
  | .cast p s a, .cast q t b => p = q && s.same t && a.same b
  | .sizeofType p s, .sizeofType q t => p = q && s.same t
  | .sizeofExpr p a, .sizeofExpr q b => p = q && a.same b
  | .initializerList p as, .initializerList q bs => p = q && Expr.sameList as bs
  | _, _ => false

def Expr.sameList : List Expr → List Expr → Bool
  | [], [] => true
  | a :: as, b :: bs => a.same b && Expr.sameList as bs
  | _, _ => false

def Expr.sameOption : Option Expr → Option Expr → Bool
  | none, none => true
  | some a, some b => a.same b
  | _, _ => false

end

/-! ## The comparison decides equality -/

mutual

theorem CType.same_iff : (a b : CType) → (a.same b = true ↔ a = b)
  | .named _, b => by
      cases b <;> simp [CType.same]
  | .pointer a, b => by
      cases b <;> simp [CType.same, CType.same_iff a]
  | .array a m, b => by
      cases b <;> simp [CType.same, CType.same_iff a, Expr.sameOption_iff m]
  | .function a ps _, b => by
      cases b <;> simp [CType.same, CType.same_iff a, CType.sameList_iff ps, and_assoc]
  | .record _ _ ms, b => by
      cases b <;> simp [CType.same, Member.sameOption_iff ms, and_assoc]
  | .enumeration _ es, b => by
      cases b <;> simp [CType.same, Enumerator.sameOption_iff es]

theorem CType.sameList_iff : (as bs : List CType) → (CType.sameList as bs = true ↔ as = bs)
  | [], bs => by
      cases bs <;> simp [CType.sameList]
  | a :: as, bs => by
      cases bs <;> simp [CType.sameList, CType.same_iff a, CType.sameList_iff as]

theorem Member.same_iff : (a b : Member) → (a.same b = true ↔ a = b)
  | ⟨_, a⟩, ⟨_, b⟩ => by
      simp [Member.same, CType.same_iff a]

theorem Member.sameList_iff : (as bs : List Member) → (Member.sameList as bs = true ↔ as = bs)
  | [], bs => by
      cases bs <;> simp [Member.sameList]
  | a :: as, bs => by
      cases bs <;> simp [Member.sameList, Member.same_iff a, Member.sameList_iff as]

theorem Member.sameOption_iff :
    (as bs : Option (List Member)) → (Member.sameOption as bs = true ↔ as = bs)
  | none, bs => by
      cases bs <;> simp [Member.sameOption]
  | some as, bs => by
      cases bs <;> simp [Member.sameOption, Member.sameList_iff as]

theorem Enumerator.same_iff : (a b : Enumerator) → (a.same b = true ↔ a = b)
  | ⟨_, a⟩, ⟨_, b⟩ => by
      simp [Enumerator.same, Expr.sameOption_iff a]

theorem Enumerator.sameList_iff :
    (as bs : List Enumerator) → (Enumerator.sameList as bs = true ↔ as = bs)
  | [], bs => by
      cases bs <;> simp [Enumerator.sameList]
  | a :: as, bs => by
      cases bs <;> simp [Enumerator.sameList, Enumerator.same_iff a, Enumerator.sameList_iff as]

theorem Enumerator.sameOption_iff :
    (as bs : Option (List Enumerator)) → (Enumerator.sameOption as bs = true ↔ as = bs)
  | none, bs => by
      cases bs <;> simp [Enumerator.sameOption]
  | some as, bs => by
      cases bs <;> simp [Enumerator.sameOption, Enumerator.sameList_iff as]

theorem Expr.same_iff : (a b : Expr) → (a.same b = true ↔ a = b)
  | .identifier .., b => by
      cases b <;> simp [Expr.same]
  | .integer .., b => by
      cases b <;> simp [Expr.same]
  | .floating .., b => by
      cases b <;> simp [Expr.same]
  | .character .., b => by
      cases b <;> simp [Expr.same]
  | .string .., b => by
      cases b <;> simp [Expr.same]
  | .call _ a as, b => by
      cases b <;> simp [Expr.same, Expr.same_iff a, Expr.sameList_iff as, and_assoc]
  | .unary _ _ a, b => by
      cases b <;> simp [Expr.same, Expr.same_iff a, and_assoc]
  | .binary _ _ a c, b => by
      cases b <;> simp [Expr.same, Expr.same_iff a, Expr.same_iff c, and_assoc]
  | .index _ a c, b => by
      cases b <;> simp [Expr.same, Expr.same_iff a, Expr.same_iff c, and_assoc]
  | .member _ a _ _, b => by
      cases b <;> simp [Expr.same, Expr.same_iff a, and_assoc]
  | .assign _ _ a c, b => by
      cases b <;> simp [Expr.same, Expr.same_iff a, Expr.same_iff c, and_assoc]
  | .conditional _ a c e, b => by
      cases b <;>
        simp [Expr.same, Expr.same_iff a, Expr.same_iff c, Expr.same_iff e, and_assoc]
  | .cast _ t a, b => by
      cases b <;> simp [Expr.same, CType.same_iff t, Expr.same_iff a, and_assoc]
  | .sizeofType _ t, b => by
      cases b <;> simp [Expr.same, CType.same_iff t]
  | .sizeofExpr _ a, b => by
      cases b <;> simp [Expr.same, Expr.same_iff a]
  | .initializerList _ as, b => by
      cases b <;> simp [Expr.same, Expr.sameList_iff as]

theorem Expr.sameList_iff : (as bs : List Expr) → (Expr.sameList as bs = true ↔ as = bs)
  | [], bs => by
      cases bs <;> simp [Expr.sameList]
  | a :: as, bs => by
      cases bs <;> simp [Expr.sameList, Expr.same_iff a, Expr.sameList_iff as]

theorem Expr.sameOption_iff : (a b : Option Expr) → (Expr.sameOption a b = true ↔ a = b)
  | none, b => by
      cases b <;> simp [Expr.sameOption]
  | some a, b => by
      cases b <;> simp [Expr.sameOption, Expr.same_iff a]

end

instance : DecidableEq CType := fun a b => decidable_of_iff _ (CType.same_iff a b)

instance : DecidableEq Member := fun a b => decidable_of_iff _ (Member.same_iff a b)

instance : DecidableEq Enumerator := fun a b => decidable_of_iff _ (Enumerator.same_iff a b)

instance : DecidableEq Expr := fun a b => decidable_of_iff _ (Expr.same_iff a b)

end CSyntax
