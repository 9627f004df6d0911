import Mathlib.Data.List.Basic
import Mathlib.Logic.Function.Basic

/-! Texts that say where they end, and the texts of JSON among them. -/
namespace DelimitedTexts

variable {α β γ : Type*} {f : α → List β} {g : γ → List β} {stop sep : β}

/-- Whatever follows the text of a value, both can be read back. -/
def Delimited (f : α → List β) : Prop := ∀ a b x y, f a ++ x = f b ++ y → a = b ∧ x = y

/-- No text begins with the letter, and none is empty. -/
def StartsOff (stop : β) (f : α → List β) : Prop := ∀ a, ∃ c cs, f a = c :: cs ∧ c ≠ stop

theorem Delimited.injective (h : Delimited f) : Function.Injective f := by
  intro a b hab
  exact (h a b [] [] (by rw [hab])).1

theorem Delimited.prepend (h : Delimited f) (w : List β) : Delimited fun a => w ++ f a := by
  intro a b x y heq
  simp only [List.append_assoc] at heq
  exact h a b x y (List.append_cancel_left heq)

theorem Delimited.append (h : Delimited f) (w : List β) : Delimited fun a => f a ++ w := by
  intro a b x y heq
  simp only [List.append_assoc] at heq
  obtain ⟨hab, hrest⟩ := h a b _ _ heq
  exact ⟨hab, List.append_cancel_left hrest⟩

theorem Delimited.comp (h : Delimited f) {k : γ → α} (hk : Function.Injective k) :
    Delimited fun c => f (k c) := by
  intro a b x y heq
  obtain ⟨hab, hxy⟩ := h _ _ x y heq
  exact ⟨hk hab, hxy⟩

theorem Delimited.pair (hf : Delimited f) (hg : Delimited g) :
    Delimited fun p : α × γ => f p.1 ++ g p.2 := by
  rintro ⟨a, c⟩ ⟨b, d⟩ x y heq
  simp only [List.append_assoc] at heq
  obtain ⟨rfl, hrest⟩ := hf a b _ _ heq
  obtain ⟨rfl, hxy⟩ := hg c d x y hrest
  exact ⟨rfl, hxy⟩

/-- Words of which none begins another one. -/
theorem delimited_of_prefix (h : ∀ a b, f a <+: f b → a = b) : Delimited f := by
  intro a b x y heq
  have hab : a = b := by
    obtain ⟨m, hb, _⟩ | ⟨m, ha, _⟩ := List.append_eq_append_iff.mp heq
    · exact h a b ⟨m, hb.symm⟩
    · exact (h b a ⟨m, ha.symm⟩).symm
  subst hab
  exact ⟨rfl, List.append_cancel_left heq⟩

theorem Delimited.terminated (h : Delimited f) (hs : StartsOff stop f) :
    Delimited fun l : List α => l.flatMap f ++ [stop] := by
  intro l
  induction l with
  | nil =>
    intro m x y heq
    cases m with
    | nil => exact ⟨rfl, by simpa using heq⟩
    | cons b m =>
      obtain ⟨c, cs, hb, hc⟩ := hs b
      simp only [List.flatMap_nil, List.nil_append, List.flatMap_cons, hb, List.cons_append,
        List.cons.injEq] at heq
      exact absurd heq.1.symm hc
  | cons a l ih =>
    intro m x y heq
    cases m with
    | nil =>
      obtain ⟨c, cs, ha, hc⟩ := hs a
      simp only [List.flatMap_nil, List.nil_append, List.flatMap_cons, ha, List.cons_append,
        List.cons.injEq] at heq
      exact absurd heq.1 hc
    | cons b m =>
      simp only [List.flatMap_cons, List.append_assoc] at heq
      obtain ⟨rfl, hrest⟩ := h a b _ _ heq
      obtain ⟨rfl, hxy⟩ := ih m x y (by simpa using hrest)
      exact ⟨rfl, hxy⟩

/-- The values of a list, with separators between them and a mark at the end. -/
def separated (sep stop : β) (f : α → List β) : List α → List β
  | [] => [stop]
  | a :: l => f a ++ (l.flatMap (fun b => sep :: f b) ++ [stop])

theorem Delimited.separated (h : Delimited f) (hs : StartsOff stop f) (hne : sep ≠ stop) :
    Delimited (separated sep stop f) := by
  have hrest : Delimited fun l : List α => l.flatMap (fun b => sep :: f b) ++ [stop] :=
    (h.prepend [sep]).terminated fun a => ⟨sep, f a, rfl, hne⟩
  intro l m x y heq
  cases l with
  | nil =>
    cases m with
    | nil => exact ⟨rfl, by simpa [DelimitedTexts.separated] using heq⟩
    | cons b m =>
      obtain ⟨c, cs, hb, hc⟩ := hs b
      simp only [DelimitedTexts.separated, hb, List.cons_append, List.nil_append,
        List.cons.injEq] at heq
      exact absurd heq.1.symm hc
  | cons a l =>
    cases m with
    | nil =>
      obtain ⟨c, cs, ha, hc⟩ := hs a
      simp only [DelimitedTexts.separated, ha, List.cons_append, List.nil_append,
        List.cons.injEq] at heq
      exact absurd heq.1 hc
    | cons b m =>
      simp only [DelimitedTexts.separated, List.append_assoc] at heq
      obtain ⟨rfl, htail⟩ := h a b _ _ heq
      obtain ⟨rfl, hxy⟩ := hrest l m x y (by simpa using htail)
      exact ⟨rfl, hxy⟩

/-- A value that may be missing. -/
def optional (missing : List β) (f : α → List β) : Option α → List β
  | none => missing
  | some a => f a

theorem Delimited.optional (h : Delimited f) {missing : List β}
    (hs : ∀ c, missing.head? = some c → StartsOff c f) (hne : missing ≠ []) :
    Delimited (optional missing f) := by
  obtain ⟨c, cs, rfl⟩ := List.exists_cons_of_ne_nil hne
  have hoff := hs c rfl
  intro o p x y heq
  cases o with
  | none =>
    cases p with
    | none => exact ⟨rfl, List.append_cancel_left heq⟩
    | some b =>
      obtain ⟨d, ds, hb, hd⟩ := hoff b
      simp only [DelimitedTexts.optional, hb, List.cons_append, List.cons.injEq] at heq
      exact absurd heq.1.symm hd
  | some a =>
    cases p with
    | none =>
      obtain ⟨d, ds, ha, hd⟩ := hoff a
      simp only [DelimitedTexts.optional, ha, List.cons_append, List.cons.injEq] at heq
      exact absurd heq.1 hd
    | some b =>
      obtain ⟨rfl, hxy⟩ := h a b x y heq
      exact ⟨rfl, hxy⟩

section Json

def hexDigit (n : Nat) : Char := Char.ofNat (if n < 10 then 48 + n else 87 + n)

/-- A character inside a JSON string. -/
def escape (c : Char) : List Char :=
  if c = '"' then ['\\', '"']
  else if c = '\\' then ['\\', '\\']
  else if c = '\n' then ['\\', 'n']
  else if c = '\r' then ['\\', 'r']
  else if c = '\t' then ['\\', 't']
  else if c.toNat = 8 then ['\\', 'b']
  else if c.toNat = 12 then ['\\', 'f']
  else if c.toNat < 32 then ['\\', 'u', '0', '0', hexDigit (c.toNat / 16), hexDigit (c.toNat % 16)]
  else [c]

def string (s : String) : List Char := '"' :: (s.toList.flatMap escape ++ ['"'])

def boolean (b : Bool) : List Char := if b then "true".toList else "false".toList

def array (f : α → List Char) (l : List α) : List Char := '[' :: separated ',' ']' f l

/-- The characters that are not written as they are. -/
def special : List Char := '"' :: '\\' :: (List.range 32).map Char.ofNat

theorem special_prefix : ∀ c ∈ special, ∀ d ∈ special, escape c <+: escape d → c = d := by
  have hall : (special.all fun c => special.all fun d =>
      decide (escape c <+: escape d → c = d)) = true := by
    decide +kernel
  intro c hc d hd
  exact of_decide_eq_true (List.all_eq_true.mp (List.all_eq_true.mp hall c hc) d hd)

theorem special_escape : ∀ c ∈ special, (escape c).head? = some '\\' ∧ 2 ≤ (escape c).length := by
  have hall : (special.all fun c =>
      decide ((escape c).head? = some '\\' ∧ 2 ≤ (escape c).length)) = true := by
    decide +kernel
  intro c hc
  exact of_decide_eq_true (List.all_eq_true.mp hall c hc)

theorem plain_escape {c : Char} (h : c ∉ special) : escape c = [c] ∧ c ≠ '\\' ∧ c ≠ '"' := by
  have hcontrol : ¬ c.toNat < 32 := by
    intro hlt
    refine h (List.mem_cons_of_mem _ (List.mem_cons_of_mem _ ?_))
    exact List.mem_map.mpr ⟨c.toNat, List.mem_range.mpr hlt, Char.ofNat_toNat c⟩
  have hquote : c ≠ '"' := fun hc => h (by simp [special, hc])
  have hslash : c ≠ '\\' := fun hc => h (by simp [special, hc])
  have hsmall : ∀ d : Char, d.toNat < 32 → c ≠ d := by
    rintro d hd rfl
    exact hcontrol hd
  refine ⟨?_, hslash, hquote⟩
  have h8 : c.toNat ≠ 8 := by omega
  have h12 : c.toNat ≠ 12 := by omega
  simp [escape, hquote, hslash, hsmall '\n' (by decide), hsmall '\r' (by decide),
    hsmall '\t' (by decide), h8, h12, hcontrol]

theorem escape_delimited : Delimited escape := by
  refine delimited_of_prefix fun c d hcd => ?_
  by_cases hc : c ∈ special
  · by_cases hd : d ∈ special
    · exact special_prefix c hc d hd hcd
    · have hlength := hcd.length_le
      rw [(plain_escape hd).1] at hlength
      have htwo := (special_escape c hc).2
      simp only [List.length_singleton] at hlength
      omega
  · obtain ⟨hplain, hslash, _⟩ := plain_escape hc
    rw [hplain] at hcd
    by_cases hd : d ∈ special
    · have hhead := (special_escape d hd).1
      obtain ⟨cs, hcs⟩ := hcd
      rw [← hcs] at hhead
      exact absurd (Option.some.inj hhead) hslash
    · rw [(plain_escape hd).1] at hcd
      simpa using hcd

theorem escape_starts : StartsOff '"' escape := by
  intro c
  by_cases hc : c ∈ special
  · have hhead := (special_escape c hc).1
    cases hescape : escape c with
    | nil => simp [hescape] at hhead
    | cons d ds =>
      rw [hescape] at hhead
      refine ⟨d, ds, rfl, ?_⟩
      rw [Option.some.inj hhead]
      decide
  · obtain ⟨hplain, _, hquote⟩ := plain_escape hc
    exact ⟨c, [], hplain, hquote⟩

theorem string_delimited : Delimited string := by
  have hchars : Delimited fun s : String => s.toList.flatMap escape ++ ['"'] :=
    (escape_delimited.terminated escape_starts).comp fun _ _ => String.toList_injective
  exact hchars.prepend ['"']

theorem boolean_delimited : Delimited boolean := by
  refine delimited_of_prefix fun a b => ?_
  revert a b
  decide

theorem array_delimited {f : α → List Char} (h : Delimited f) (hs : StartsOff ']' f) :
    Delimited (array f) :=
  (h.separated hs (by decide)).prepend ['[']

end Json

end DelimitedTexts
