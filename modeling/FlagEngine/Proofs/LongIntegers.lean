import FlagEngine.Json
import FlagEngine.Proofs.Encodings
import Mathlib.Data.List.TakeWhile

/-! Integers that are too long to be read, and escapes of half a pair. Only strings hide what is not
meant as a number, so a place in a text is known by whether a string is open there. Reading a
document goes from place to place outside of strings, and ends in a fault for an integer that is too
long or for half a pair only where there is one. -/
namespace FlagEngine.Json

/-- Whether a string is open, and there whether the next character is escaped. -/
inductive Lexing
  | outside
  | inside
  | escaped

def Lexing.step : Lexing → Char → Lexing
  | .outside, c => if c = '"' then .inside else .outside
  | .inside, c => if c = '"' then .outside else if c = '\\' then .escaped else .inside
  | .escaped, _ => .inside

/-- The rest of the text begins where strings are open or not, as said. -/
def At (s : Lexing) (text rest : List Char) : Prop :=
  ∃ pre, text = pre ++ rest ∧ pre.foldl Lexing.step .outside = s

/-- What a value may stand right behind. -/
def opens (c : Char) : Bool := isBlank c || c == '[' || c == ',' || c == ':'

/-- A value may begin here: outside of strings, at the start or behind what opens one. -/
def BeginsAt (text rest : List Char) : Prop :=
  ∃ pre, text = pre ++ rest ∧ pre.foldl Lexing.step .outside = .outside ∧
    ∀ c ∈ pre.getLast?, opens c = true

/-- The text has, where a value may begin, an integer of more digits than are read. -/
def HasLongInteger (text : List Char) : Prop :=
  ∃ sign digits rest, BeginsAt text (sign ++ (digits ++ rest)) ∧ (sign = [] ∨ sign = ['-']) ∧
    (∀ c ∈ digits, c.isDigit = true) ∧ digits.head? ≠ some '0' ∧
    Number.maxDigits < digits.length ∧ (∀ c ∈ rest.head?, c.isDigit = false) ∧
    fractionPart rest = none ∧ exponentPart rest = none

/-- The text has, where a string is open, the escape of half a pair that stands alone. -/
def HasLoneHalf (text : List Char) : Prop :=
  ∃ rest, At .inside text ('\\' :: 'u' :: rest) ∧
    unicodeEscape rest = .error (.fault .loneHalf)

theorem not_hasLoneHalf {text : List Char} (h : '\\' ∉ text) : ¬ HasLoneHalf text := by
  rintro ⟨rest,⟨pre,rfl,-⟩,-⟩
  simp at h

theorem not_hasLongInteger {text : List Char} (h : text.length ≤ Number.maxDigits) :
    ¬ HasLongInteger text := by
  rintro ⟨sign,digits,rest,⟨pre,rfl,-,-⟩,-,-,-,hlong,-,-,-⟩
  simp only [List.length_append] at h
  omega

variable {text cs rest : List Char} {s : Lexing}

theorem At.step {c : Char} (h : At s text (c :: cs)) : At (s.step c) text cs := by
  obtain ⟨pre,rfl,hpre⟩ := h
  exact ⟨pre ++ [c],by simp,by simp [hpre]⟩

/-- Without a quote nothing opens. -/
theorem At.pass {used : List Char} (hused : ∀ c ∈ used, c ≠ '"')
    (h : At .outside text (used ++ rest)) : At .outside text rest := by
  induction used with
  | nil => exact h
  | cons c used ih =>
    rw [List.forall_mem_cons] at hused
    have hstep := h.step
    rw [Lexing.step,if_neg hused.1] at hstep
    exact ih hused.2 hstep

theorem ne_quote_of_isBlank {c : Char} (h : isBlank c = true) : c ≠ '"' := by
  rintro rfl
  cases h

theorem ne_quote_of_isDigit {c : Char} (h : c.isDigit = true) : c ≠ '"' := by
  rintro rfl
  cases h

theorem exists_skip (cs : List Char) :
    ∃ blanks, cs = blanks ++ skip cs ∧ ∀ c ∈ blanks, isBlank c = true :=
  ⟨cs.takeWhile isBlank,List.takeWhile_append_dropWhile.symm,fun _ => List.mem_takeWhile_imp⟩

theorem At.skip (h : At .outside text cs) : At .outside text (skip cs) := by
  obtain ⟨blanks,hcs,hblanks⟩ := exists_skip cs
  rw [hcs] at h
  exact h.pass fun c hc => ne_quote_of_isBlank (hblanks c hc)

theorem BeginsAt.start (text : List Char) : BeginsAt text text := ⟨[],rfl,rfl,by simp⟩

theorem BeginsAt.outside (h : BeginsAt text cs) : At .outside text cs := by
  obtain ⟨pre,htext,hpre,-⟩ := h
  exact ⟨pre,htext,hpre⟩

theorem BeginsAt.behind {c : Char} (hc : opens c = true) (h : At .outside text (c :: cs)) :
    BeginsAt text cs := by
  have hne : c ≠ '"' := by
    rintro rfl
    cases hc
  obtain ⟨pre,rfl,hpre⟩ := h
  exact ⟨pre ++ [c],by simp,by simp [hpre,Lexing.step,hne],by simpa using hc⟩

theorem BeginsAt.skip (h : BeginsAt text cs) : BeginsAt text (skip cs) := by
  obtain ⟨blanks,hcs,hblanks⟩ := exists_skip cs
  generalize Json.skip cs = rest at hcs ⊢
  subst hcs
  induction blanks with
  | nil => exact h
  | cons c blanks ih =>
    rw [List.forall_mem_cons] at hblanks
    have hopens : opens c = true := by simp [opens,hblanks.1]
    exact ih hblanks.2 (BeginsAt.behind hopens h.outside)

/-- What may end the reading of a text: an integer that is too long or half a pair only if the text
has one. -/
inductive Fails (text : List Char) : Failure → Prop
  | malformed : Fails text .malformed
  | overlong (h : HasLongInteger text) : Fails text (.fault .overlongInteger)
  | loneHalf (h : HasLoneHalf text) : Fails text (.fault .loneHalf)

/-- A reading of part of a text: it ends outside of strings, or it fails for a cause. -/
inductive Reads {α : Type} (text : List Char) : Except Failure (Rest α) → Prop
  | ok {r : Rest α} (h : At .outside text r.2) : Reads text (.ok r)
  | fails {f : Failure} (h : Fails text f) : Reads text (.error f)

theorem Reads.malformed {α : Type} : Reads text (.error .malformed : Except Failure (Rest α)) :=
  .fails .malformed

theorem Reads.bind {α β : Type} {x : Except Failure (Rest α)} {g : Rest α → Except Failure (Rest β)}
    (hx : Reads text x) (hg : ∀ r, At .outside text r.2 → Reads text (g r)) :
    Reads text (x >>= g) := by
  cases hx with
  | ok h => exact hg _ h
  | fails h => exact .fails h

/-- Where levels are not counted there is always one more. -/
theorem enter_none_bind {α : Type} (g : Option Nat → Except Failure α) :
    enter none >>= g = g none := rfl

/-! Strings. -/

theorem At.inside {c : Char} (h : At .inside text (c :: cs)) (hquote : c ≠ '"')
    (hslash : c ≠ '\\') : At .inside text cs := by
  have hstep := h.step
  rwa [Lexing.step,if_neg hquote,if_neg hslash] at hstep

theorem plain_of_hexValue? {c : Char} {n : Nat} (h : hexValue? c = some n) :
    c ≠ '"' ∧ c ≠ '\\' := by
  constructor <;> rintro rfl <;> cases h

theorem At.hex4 {n : Nat} (h : At .inside text cs) (hhex : hex4 cs = .ok (n,rest)) :
    At .inside text rest := by
  unfold Json.hex4 at hhex
  split at hhex
  · split at hhex
    · next ha hb hc hd =>
      obtain ⟨-,rfl⟩ := Prod.mk.inj (Except.ok.inj hhex)
      have plain := fun {c n} => plain_of_hexValue? (c := c) (n := n)
      exact (((h.inside (plain ha).1 (plain ha).2).inside (plain hb).1 (plain hb).2).inside
        (plain hc).1 (plain hc).2).inside (plain hd).1 (plain hd).2
    · cases hhex
  · cases hhex

theorem At.escape {c : Char} (h : At .inside text ('\\' :: c :: cs)) : At .inside text cs :=
  h.step.step

theorem At.lowHalf {n : Nat} (h : At .inside text cs) (hlow : lowHalf cs = .ok (n,rest)) :
    At .inside text rest := by
  unfold Json.lowHalf at hlow
  split at hlow
  · next mid =>
    rcases hhex : Json.hex4 mid with f | ⟨v,rest'⟩ <;> simp only [hhex,bind,Except.bind] at hlow
    · cases hlow
    · split at hlow
      · obtain ⟨-,rfl⟩ := Prod.mk.inj (Except.ok.inj hlow)
        exact h.escape.hex4 hhex
      · cases hlow
  · cases hlow

theorem At.unicodeEscape {c : Char} (h : At .inside text cs)
    (hescape : unicodeEscape cs = .ok (c,rest)) : At .inside text rest := by
  unfold Json.unicodeEscape at hescape
  rcases hhex : Json.hex4 cs with f | ⟨u,mid⟩ <;> simp only [hhex,bind,Except.bind] at hescape
  · cases hescape
  · have hfirst := h.hex4 hhex
    split at hescape
    · rcases hlow : Json.lowHalf mid with f | ⟨v,rest'⟩ <;> simp only [hlow] at hescape
      · cases hescape
      · obtain ⟨-,rfl⟩ := Prod.mk.inj (Except.ok.inj hescape)
        exact hfirst.lowHalf hlow
    · split at hescape
      · cases hescape
      · obtain ⟨-,rfl⟩ := Prod.mk.inj (Except.ok.inj hescape)
        exact hfirst

theorem hex4_ne_fault (cs : List Char) (f : Fault) : hex4 cs ≠ .error (.fault f) := by
  unfold hex4
  split
  · split <;> exact nofun
  · exact nofun

/-- An escape fails for its form, or because it stands for half a pair. -/
theorem unicodeEscape_eq_fault {f : Fault} (h : unicodeEscape cs = .error (.fault f)) :
    f = .loneHalf := by
  unfold unicodeEscape at h
  rcases hhex : hex4 cs with g | ⟨u,mid⟩ <;> simp only [hhex,bind,Except.bind] at h
  · obtain rfl := Except.error.inj h
    exact absurd hhex (hex4_ne_fault cs f)
  · split at h
    · rcases hlow : lowHalf mid with g | ⟨v,rest'⟩ <;> simp only [hlow] at h
      · obtain rfl := Except.error.inj h
        unfold lowHalf at hlow
        split at hlow
        · next low =>
          rcases hhex' : hex4 low with g | ⟨v,rest'⟩ <;>
            simp only [hhex',bind,Except.bind] at hlow
          · obtain rfl := Except.error.inj hlow
            exact absurd hhex' (hex4_ne_fault low f)
          · split at hlow <;> cases hlow
            rfl
        · cases hlow
          rfl
      · cases h
    · split at h <;> cases h
      rfl

theorem Fails.unicodeEscape {f : Failure} (h : At .inside text ('\\' :: 'u' :: cs))
    (hescape : unicodeEscape cs = .error f) : Fails text f := by
  cases f with
  | malformed => exact .malformed
  | fault f =>
    obtain rfl := unicodeEscape_eq_fault hescape
    exact .loneHalf ⟨cs,h,hescape⟩

theorem reads_string (n : Nat) (acc : List Char) (h : At .inside text cs) :
    Reads text (string n acc cs) := by
  fun_induction string n acc cs with
  | case1 | case2 => exact .malformed
  | case3 n acc rest => exact .ok h.step
  | case4 n acc rest c mid hescape ih => exact ih (h.escape.unicodeEscape hescape)
  | case5 n acc rest f hescape => exact .fails (.unicodeEscape h hescape)
  | case6 n acc e rest _ c hescape ih => exact ih h.escape
  | case7 => exact .malformed
  | case8 => exact .malformed
  | case9 n acc c rest hquote _ _ hplain ih =>
    simp only [Bool.or_eq_true,beq_iff_eq,not_or] at hplain
    exact ih (h.inside hquote hplain.2)

/-! Numbers. -/

theorem exists_spanDigits {digits : List Char} (h : Literal.spanDigits cs = (digits,rest)) :
    cs = digits ++ rest ∧ (∀ c ∈ digits, c.isDigit = true) ∧ ∀ c ∈ rest.head?, c.isDigit = false := by
  rw [Literal.spanDigits,List.span_eq_takeWhile_dropWhile] at h
  obtain ⟨rfl,rfl⟩ := Prod.mk.inj h
  refine ⟨List.takeWhile_append_dropWhile.symm,fun _ => List.mem_takeWhile_imp,fun c hc => ?_⟩
  have hnot := List.head?_dropWhile_not Char.isDigit cs
  rw [Option.mem_def.mp hc] at hnot
  simpa using hnot

/-- The digits of the whole part; if there are more than one, the first is no zero. -/
theorem exists_wholePart {digits : List Char} (h : wholePart cs = some (digits,rest)) :
    cs = digits ++ rest ∧ (∀ c ∈ digits, c.isDigit = true) ∧
      (1 < digits.length → digits.head? ≠ some '0' ∧ ∀ c ∈ rest.head?, c.isDigit = false) := by
  unfold wholePart at h
  split at h
  · obtain ⟨rfl,rfl⟩ := Prod.mk.inj (Option.some.inj h)
    exact ⟨rfl,by simp,fun hlong => absurd hlong (by decide)⟩
  · next hzero =>
    split at h
    · cases h
    · obtain ⟨hcs,hdigits,hrest⟩ := exists_spanDigits (Option.some.inj h)
      refine ⟨hcs,hdigits,fun _ => ⟨fun hhead => ?_,hrest⟩⟩
      obtain ⟨ds,rfl⟩ := List.head?_eq_some_iff.mp hhead
      exact hzero _ hcs

theorem At.digits {digits : List Char} (h : At .outside text cs)
    (hdigits : Literal.spanDigits cs = (digits,rest)) : At .outside text rest := by
  obtain ⟨rfl,hall,-⟩ := exists_spanDigits hdigits
  exact h.pass fun c hc => ne_quote_of_isDigit (hall c hc)

theorem At.fractionPart {digits : List Char} (h : At .outside text cs)
    (hpart : fractionPart cs = some (digits,rest)) : At .outside text rest := by
  unfold Json.fractionPart at hpart
  split at hpart
  · split at hpart
    · cases hpart
    · exact h.step.digits (Option.some.inj hpart)
  · cases hpart

theorem At.exponent {e : Int} (h : At .outside text cs)
    (hpart : Literal.exponent? cs = some (e,rest)) : At .outside text rest := by
  unfold Literal.exponent? at hpart
  split at hpart
  next neg r hsigned =>
    have hr : At .outside text r := by
      split at hsigned <;> obtain ⟨-,rfl⟩ := Prod.mk.inj hsigned
      · exact h.step
      · exact h.step
      · exact h
    split at hpart
    · cases hpart
    · next ds r' hne hspan =>
      obtain ⟨-,rfl⟩ := Prod.mk.inj (Option.some.inj hpart)
      exact hr.digits hspan

theorem At.exponentPart {e : Int} (h : At .outside text cs)
    (hpart : exponentPart cs = some (e,rest)) : At .outside text rest := by
  unfold Json.exponentPart at hpart
  split at hpart
  · exact h.step.exponent hpart
  · exact h.step.exponent hpart
  · cases hpart

theorem reads_number {sign : List Char} (hsign : sign = [] ∨ sign = ['-']) (neg : Bool)
    (h : BeginsAt text (sign ++ cs)) : Reads text (number neg cs) := by
  have hat : At .outside text cs := h.outside.pass (by rcases hsign with rfl | rfl <;> simp)
  rcases hwhole : wholePart cs with _ | ⟨digits,rest⟩
  · simp only [number,hwhole]
    exact .malformed
  obtain ⟨rfl,hdigits,hlong⟩ := exists_wholePart hwhole
  have hrest : At .outside text rest := hat.pass fun c hc => ne_quote_of_isDigit (hdigits c hc)
  simp only [number,hwhole]
  rcases hfraction : fractionPart rest with _ | ⟨ds,r⟩ <;> dsimp only
  · rcases hexponent : exponentPart rest with _ | ⟨e,r⟩ <;> dsimp only
    · simp only [Option.isNone_none,Bool.and_self,if_true]
      split
      · next hdigitsLong =>
        obtain ⟨hzero,hnext⟩ := hlong (Nat.lt_trans (by decide) hdigitsLong)
        exact .fails (.overlong ⟨sign,digits,rest,h,hsign,hdigits,hzero,hdigitsLong,hnext,hfraction,
          hexponent⟩)
      · exact .ok hrest
    · exact .ok (hrest.exponentPart hexponent)
  · have hr := hrest.fractionPart hfraction
    rcases hexponent : exponentPart r with _ | ⟨e,r'⟩ <;> dsimp only
    · exact .ok hr
    · exact .ok (hr.exponentPart hexponent)

theorem reads_atom (h : BeginsAt text cs) : Reads text (atom cs) := by
  unfold atom
  have hat := h.outside
  split
  · exact .ok hat.step.step.step.step
  · exact .ok hat.step.step.step.step
  · exact .ok hat.step.step.step.step.step
  · exact .ok hat.step.step.step
  · exact .ok hat.step.step.step.step.step.step.step.step
  · exact .ok hat.step.step.step.step.step.step.step.step.step
  · exact reads_number (.inr rfl) true h
  · exact reads_number (.inl rfl) false h

/-! Documents. -/

/-- By induction on the fuel, for values, items and entries at once. -/
theorem reads_parts (n : Nat) :
    (∀ cs, BeginsAt text cs → Reads text (value n none cs)) ∧
    (∀ acc cs, BeginsAt text cs → Reads text (items n none acc cs)) ∧
    ∀ acc cs, At .outside text cs → Reads text (entries n none acc cs) := by
  induction n with
  | zero => exact ⟨fun _ _ => .malformed,fun _ _ _ => .malformed,fun _ _ _ => .malformed⟩
  | succ n ih =>
    obtain ⟨hvalue,hitems,hentries⟩ := ih
    refine ⟨fun cs h => ?_,fun acc cs h => ?_,fun acc cs h => ?_⟩
    · unfold value
      split
      · exact (reads_string _ [] h.outside.step).bind fun r hr => .ok hr
      · have hinner := BeginsAt.behind (by decide) h.outside
        rw [enter_none_bind]
        dsimp only
        split
        · next hskip => exact .ok (hskip ▸ hinner.skip).outside.step
        · exact (hitems [] _ hinner.skip).bind fun r hr => .ok hr
      · have hinner := h.outside.step.skip
        rw [enter_none_bind]
        dsimp only
        split
        · next hskip => exact .ok (hskip ▸ hinner).step
        · exact (hentries [] _ hinner).bind fun r hr => .ok hr
      · exact reads_atom h
    · unfold items
      refine (hvalue cs h).bind fun r hr => ?_
      have hnext := hr.skip
      dsimp only
      split
      · next hskip => exact .ok (hskip ▸ hnext).step
      · next hskip => exact hitems _ _ (BeginsAt.behind (by decide) (hskip ▸ hnext)).skip
      · exact .malformed
    · unfold entries
      split
      · refine (reads_string _ [] h.step).bind fun r hr => ?_
        have hcolon := hr.skip
        dsimp only
        split
        · next hskip =>
          refine (hvalue _ (BeginsAt.behind (by decide) (hskip ▸ hcolon)).skip).bind fun r' hr' => ?_
          have hnext := hr'.skip
          split
          · next hskip' => exact .ok (hskip' ▸ hnext).step
          · next hskip' => exact hentries _ _ (hskip' ▸ hnext).step.skip
          · exact .malformed
        · exact .malformed
      · exact .malformed

/-- A text whose levels are not counted is refused because it is no document, for an integer that is
too long or for half a pair. -/
theorem fails_of_read {text : String} {f : Failure} (h : read text = .error f) :
    Fails text.toList f := by
  have hreads : Reads text.toList (value (2 * text.toList.length + 2) none (skip text.toList)) :=
    (reads_parts _).1 _ (BeginsAt.start text.toList).skip
  unfold read readWithin at h
  dsimp only at h
  generalize value (2 * text.toList.length + 2) none (skip text.toList) = x at h hreads
  cases hreads with
  | @ok r hr =>
    simp only [bind,Except.bind] at h
    split at h <;> cases h
    exact .malformed
  | fails hf =>
    obtain rfl := Except.error.inj h
    exact hf

end FlagEngine.Json
