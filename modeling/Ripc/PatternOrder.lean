import Mathlib.Data.Nat.Basic
import Mathlib.Data.Sum.Order
import Mathlib.Order.RelIso.Basic
import Ripc.OrderedMap
import Ripc.UrlMatching

namespace Ripc

/-- `std::variant` orders by the alternative first. -/
def UrlToken.Less : UrlToken → UrlToken → Prop
  | .string a, .string b => List.Lex (· < ·) a b
  | .string _, .int _ => True
  | .int _, .string _ => False
  | .int a, .int b => a < b

def Dynamic.Less : Dynamic → Dynamic → Prop
  | .string, .int => True
  | _, _ => False

def PatternToken.Less : PatternToken → PatternToken → Prop
  | .static a, .static b => a.Less b
  | .static _, .dynamic _ => True
  | .dynamic _, .static _ => False
  | .dynamic a, .dynamic b => a.Less b

instance : DecidableRel UrlToken.Less := fun a b => by
  cases a <;> cases b <;> unfold UrlToken.Less <;> infer_instance

instance : DecidableRel Dynamic.Less := fun a b => by
  cases a <;> cases b <;> unfold Dynamic.Less <;> infer_instance

instance : DecidableRel PatternToken.Less := fun a b => by
  cases a <;> cases b <;> unfold PatternToken.Less <;> infer_instance

def UrlPattern.Less (pat pat2 : UrlPattern) : Prop := List.Lex PatternToken.Less pat.pattern pat2.pattern

instance byteStrictTotal : IsStrictTotalOrder UInt8 (· < ·) where
  trichotomous _ _ hab hba := UInt8.le_antisymm (UInt8.not_lt.mp hba) (UInt8.not_lt.mp hab)
  irrefl a := UInt8.lt_irrefl a
  trans _ _ _ := UInt8.lt_trans

instance lexStrictTotal {T : Type} (less : T → T → Prop) [IsStrictTotalOrder T less] :
    IsStrictTotalOrder (List T) (List.Lex less) where
  irrefl l := List.lex_irrefl (irrefl (r := less)) l
  trans _ _ _ := List.lex_trans fun h h' => IsTrans.trans _ _ _ h h'

instance variantStrictTotal {S T : Type} (r : S → S → Prop) (s : T → T → Prop) [IsStrictTotalOrder S r]
    [IsStrictTotalOrder T s] : IsStrictTotalOrder (S ⊕ T) (Sum.Lex r s) where

/-- A token as one of two alternatives. -/
def UrlToken.variant : UrlToken → List UInt8 ⊕ Nat
  | .string tok => .inl tok
  | .int n => .inr n

def PatternToken.variant : PatternToken → UrlToken ⊕ Dynamic
  | .static tok => .inl tok
  | .dynamic d => .inr d

def Dynamic.value : Dynamic → Nat
  | .string => 0
  | .int => 1

theorem UrlToken.variant_injective : Function.Injective UrlToken.variant := by
  intro a b h
  cases a <;> cases b <;> simp_all [UrlToken.variant]

theorem Dynamic.value_injective : Function.Injective Dynamic.value := by
  intro a b h
  cases a <;> cases b <;> simp_all [Dynamic.value]

theorem PatternToken.variant_injective : Function.Injective PatternToken.variant := by
  intro a b h
  cases a <;> cases b <;> simp_all [PatternToken.variant]

theorem UrlToken.less_iff (a b : UrlToken) :
    Sum.Lex (List.Lex (· < ·)) (· < ·) a.variant b.variant ↔ a.Less b := by
  cases a <;> cases b <;> simp [UrlToken.variant, UrlToken.Less]

theorem Dynamic.less_iff (a b : Dynamic) : a.value < b.value ↔ a.Less b := by
  cases a <;> cases b <;> simp [Dynamic.value, Dynamic.Less]

theorem PatternToken.less_iff (a b : PatternToken) :
    Sum.Lex UrlToken.Less Dynamic.Less a.variant b.variant ↔ a.Less b := by
  cases a <;> cases b <;> simp [PatternToken.variant, PatternToken.Less]

instance : IsStrictTotalOrder UrlToken UrlToken.Less :=
  RelEmbedding.isStrictTotalOrder ⟨⟨_, UrlToken.variant_injective⟩, UrlToken.less_iff _ _⟩

instance : IsStrictTotalOrder Dynamic Dynamic.Less :=
  RelEmbedding.isStrictTotalOrder (s := fun a b : Nat => a < b) ⟨⟨_, Dynamic.value_injective⟩, Dynamic.less_iff _ _⟩

instance : IsStrictTotalOrder PatternToken PatternToken.Less :=
  RelEmbedding.isStrictTotalOrder ⟨⟨_, PatternToken.variant_injective⟩, PatternToken.less_iff _ _⟩

end Ripc
