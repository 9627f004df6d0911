import WaRuntime.CampaignAggregates
import WaRuntime.CanonicalOrders
import WaRuntime.Utf16Strings

/-! The order in which JavaScript sorts texts, that of their UTF-16 code units, is total. -/
namespace Utf16Order

open CanonicalOrders CampaignAggregates
open CampaignExecution (GroupId)
open Utf16Strings (toNat_range)

def charUnits (c : Char) : List ℕ :=
  if 0x10000 ≤ c.toNat then
    [0xD800 + (c.toNat - 0x10000) / 0x400, 0xDC00 + (c.toNat - 0x10000) % 0x400]
  else [c.toNat]

/-- A leading surrogate is no unit of its own, so that the units of a character begin those of no
other one. -/
theorem charUnits_prefix (a b : Char) (x y : List ℕ) (h : charUnits a ++ x = charUnits b ++ y) :
    a = b := by
  have ha := toNat_range a
  have hb := toNat_range b
  refine Char.toNat_inj.mp ?_
  unfold charUnits at h
  split at h <;> split at h
  all_goals
    simp only [List.cons_append, List.nil_append, List.cons.injEq] at h
    omega

theorem codeUnits_injective : Function.Injective codeUnits := by
  have hne : ∀ c, charUnits c ≠ [] := by
    intro c
    unfold charUnits
    split <;> simp
  intro a b h
  exact String.toList_inj.mp (flatMap_injective hne charUnits_prefix h)

def lexicographic : TotalOrder (List ℕ) where
  le a b := a ≤ b
  decidable := inferInstance
  total := le_total
  trans _ _ _ := le_trans
  antisymm _ _ := le_antisymm

/-- The order of JavaScript's `sort`. -/
def utf16 : TotalOrder GroupId := lexicographic.lift codeUnits codeUnits_injective

theorem sort_eq (groupIds : List GroupId) : sort groupIds = utf16.sort groupIds := rfl

end Utf16Order
