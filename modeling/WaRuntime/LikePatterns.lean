import Mathlib.Computability.Language
import Mathlib.Data.List.Infix

/-! LIKE patterns with a backslash as their escape character.
A pattern denotes a language; `like` decides it. `ilike` lower-cases the pattern and the text,
character by character, before it compares them. -/
namespace LikePatterns

inductive Token where
  | literal (c : Char)
  | one
  | many
  deriving DecidableEq, Repr

/-- The tokens of a pattern; `none` where it ends with the escape character. -/
def tokens : List Char → Option (List Token)
  | [] => some []
  | c :: pattern =>
    if c = '\\' then
      match pattern with
      | [] => none
      | d :: rest => (tokens rest).map (Token.literal d :: ·)
    else if c = '%' then (tokens pattern).map (Token.many :: ·)
    else if c = '_' then (tokens pattern).map (Token.one :: ·)
    else (tokens pattern).map (Token.literal c :: ·)

def fits : List Token → List Char → Bool
  | [], text => text.isEmpty
  | .literal c :: ts, d :: text => c == d && fits ts text
  | .one :: ts, _ :: text => fits ts text
  | .literal _ :: _, [] | .one :: _, [] => false
  | .many :: ts, text => text.tails.any (fits ts)

/-- `text LIKE pattern`; `none` is the error that the pattern must not end with the escape
character. -/
def like (pattern text : List Char) : Option Bool := (tokens pattern).map (fits · text)

/-- The character is escaped. -/
def Special (c : Char) : Prop := c = '\\' ∨ c = '%' ∨ c = '_'

instance (c : Char) : Decidable (Special c) := inferInstanceAs (Decidable (_ ∨ _ ∨ _))

def escape (cs : List Char) : List Char := cs.flatMap fun c => if Special c then ['\\', c] else [c]

def ilike (lower : Char → Char) (pattern text : List Char) : Option Bool :=
  like (pattern.map lower) (text.map lower)

def Token.language : Token → Language Char
  | .literal c => {[c]}
  | .one => {text | ∃ c, text = [c]}
  | .many => Set.univ

/-- The texts that a pattern stands for. -/
def language (ts : List Token) : Language Char := (ts.map Token.language).prod

variable {ts us : List Token} {c : Char} {cs text : List Char} {lower : Char → Char}

theorem language_cons (t : Token) (ts : List Token) :
    language (t :: ts) = t.language * language ts := by
  simp [language]

theorem language_append (ts us : List Token) :
    language (ts ++ us) = language ts * language us := by
  simp [language]

theorem mem_many : text ∈ language (.many :: ts) ↔ ∃ u ∈ language ts, u <:+ text := by
  rw [language_cons, Language.mem_mul]
  constructor
  · rintro ⟨a, _, b, hb, rfl⟩
    exact ⟨b, hb, List.suffix_append a b⟩
  · rintro ⟨u, hu, a, rfl⟩
    exact ⟨a, Set.mem_univ a, u, hu, rfl⟩

theorem fits_iff : fits ts text ↔ text ∈ language ts := by
  induction ts generalizing text with
  | nil =>
    rw [fits, List.isEmpty_iff, language, List.map_nil, List.prod_nil, Language.mem_one]
  | cons t ts ih =>
    cases t with
    | literal c =>
      rw [language_cons, Language.mem_mul]
      cases text with
      | nil =>
        simp only [fits, Bool.false_eq_true, false_iff]
        rintro ⟨a, rfl, b, _, heq⟩
        cases heq
      | cons d text =>
        simp only [fits, Bool.and_eq_true, beq_iff_eq, ih, Token.language]
        constructor
        · rintro ⟨rfl, h⟩
          exact ⟨[c], rfl, text, h, rfl⟩
        · rintro ⟨a, rfl, b, hb, heq⟩
          obtain ⟨rfl, rfl⟩ := List.cons.inj heq
          exact ⟨rfl, hb⟩
    | one =>
      rw [language_cons, Language.mem_mul]
      cases text with
      | nil =>
        simp only [fits, Bool.false_eq_true, false_iff]
        rintro ⟨a, ⟨c, rfl⟩, b, _, heq⟩
        cases heq
      | cons d text =>
        rw [fits, ih]
        constructor
        · intro h
          exact ⟨[d], ⟨d, rfl⟩, text, h, rfl⟩
        · rintro ⟨a, ⟨c, rfl⟩, b, hb, heq⟩
          obtain ⟨rfl, rfl⟩ := List.cons.inj heq
          exact hb
    | many =>
      rw [mem_many]
      simp only [fits, List.any_eq_true, List.mem_tails, ih]
      exact ⟨fun ⟨u, hsuffix, hu⟩ => ⟨u, hu, hsuffix⟩, fun ⟨u, hu, hsuffix⟩ => ⟨u, hsuffix, hu⟩⟩

theorem language_literals (cs : List Char) : language (cs.map Token.literal) = {cs} := by
  induction cs with
  | nil => rfl
  | cons c cs ih =>
    ext text
    rw [List.map_cons, language_cons, ih, Language.mem_mul]
    constructor
    · rintro ⟨a, rfl, b, rfl, rfl⟩
      rfl
    · rintro rfl
      exact ⟨[c], rfl, cs, rfl, rfl⟩

theorem tokens_plain (hc : ¬ Special c) (pattern : List Char) :
    tokens (c :: pattern) = (tokens pattern).map (Token.literal c :: ·) := by
  obtain ⟨hbackslash, hpercent, hunderscore⟩ : c ≠ '\\' ∧ c ≠ '%' ∧ c ≠ '_' := by
    simpa [Special] using hc
  rw [tokens.eq_def]
  simp [hbackslash, hpercent, hunderscore]

theorem tokens_many (pattern : List Char) :
    tokens ('%' :: pattern) = (tokens pattern).map (Token.many :: ·) := by
  rw [tokens.eq_def]
  simp

/-- An escaped text is its characters. -/
theorem tokens_escape (cs pattern : List Char) :
    tokens (escape cs ++ pattern) = (tokens pattern).map (cs.map Token.literal ++ ·) := by
  induction cs with
  | nil => simp [escape]
  | cons c cs ih =>
    have hcons : escape (c :: cs) ++ pattern =
        (if Special c then ['\\', c] else [c]) ++ (escape cs ++ pattern) := by
      simp [escape]
    rw [hcons]
    have hnext : (tokens (escape cs ++ pattern)).map (Token.literal c :: ·) =
        (tokens pattern).map ((c :: cs).map Token.literal ++ ·) := by
      rw [ih, Option.map_map]
      rfl
    by_cases hc : Special c
    · rw [if_pos hc]
      exact hnext
    · rw [if_neg hc, ← hnext, List.singleton_append, tokens_plain hc]

theorem tokens_search (cs : List Char) :
    tokens ('%' :: escape cs ++ ['%']) = some (.many :: (cs.map Token.literal ++ [.many])) := by
  rw [List.cons_append, tokens_many, tokens_escape]
  rfl

/-- An escaped text between two percent signs is found wherever it is a part. -/
theorem like_search (cs text : List Char) :
    like ('%' :: escape cs ++ ['%']) text = some (decide (cs <:+: text)) := by
  unfold like
  rw [tokens_search, Option.map_some, Option.some_inj, Bool.eq_iff_iff, fits_iff, mem_many,
    decide_eq_true_iff, language_append, language_literals]
  constructor
  · rintro ⟨u, hu, hsuffix⟩
    obtain ⟨a, rfl, b, _, rfl⟩ := Language.mem_mul.mp hu
    exact (List.prefix_append a b).isInfix.trans hsuffix.isInfix
  · rintro ⟨a, b, rfl⟩
    refine ⟨cs ++ b, Language.mem_mul.mpr ⟨cs, rfl, b, ?_, rfl⟩, a, by simp⟩
    rw [language_cons]
    exact Language.mem_mul.mpr ⟨b, Set.mem_univ b, [], rfl, by simp⟩

/-- Lower case leaves the special characters alone, and makes none. -/
structure LawfulLower (lower : Char → Char) : Prop where
  keeps : ∀ c, Special c → lower c = c
  makes : ∀ c, Special (lower c) → Special c

theorem special_lower (h : LawfulLower lower) : Special (lower c) ↔ Special c := by
  constructor
  · exact h.makes c
  · intro hc
    rwa [h.keeps c hc]

theorem escape_lower (h : LawfulLower lower) (cs : List Char) :
    (escape cs).map lower = escape (cs.map lower) := by
  unfold escape
  rw [List.map_flatMap, List.flatMap_map]
  congr 1
  funext c
  by_cases hc : Special c
  · rw [if_pos hc, if_pos ((special_lower h).mpr hc)]
    simp [h.keeps '\\' (.inl rfl)]
  · rw [if_neg hc, if_neg fun hl => hc ((special_lower h).mp hl)]
    rfl

theorem ilike_search (h : LawfulLower lower) (cs text : List Char) :
    ilike lower ('%' :: escape cs ++ ['%']) text =
      some (decide (cs.map lower <:+: text.map lower)) := by
  unfold ilike
  rw [List.map_append, List.map_cons, escape_lower h, ← like_search]
  simp [h.keeps '%' (.inr (.inl rfl))]

/-- The lower case of the ASCII letters. -/
theorem toLower_lawful : LawfulLower Char.toLower := by
  constructor
  · rintro c (rfl | rfl | rfl) <;> rfl
  · intro c hc
    unfold Char.toLower at hc
    split at hc
    · rename_i hupper
      obtain ⟨hle, hge⟩ := hupper
      rw [ge_iff_le, UInt32.le_iff_toNat_le] at hle
      rw [UInt32.le_iff_toNat_le] at hge
      have hval : 'A'.val.toNat = 65 ∧ 'Z'.val.toNat = 90 ∧ ('a'.val - 'A'.val).toNat = 32 := by
        decide
      have hnat : c.toNat = c.val.toNat := rfl
      rcases hc with hc | hc | hc
      all_goals
        have h := congrArg (fun c : Char => c.val.toNat) hc
        simp only [UInt32.toNat_add, hval] at h hle hge
        simp at h
        omega
    · exact hc

end LikePatterns
