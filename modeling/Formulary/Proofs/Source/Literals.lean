import Formulary.Proofs.Number.Decimal
import Formulary.Proofs.Source.Spelling

namespace Formulary

/-!
# Literals that read back

The text of a number without a sign, of a string and of a truth value spells the
literal it is the text of.
-/

open Token

/-- An integer as it is written. -/
theorem toList_toString_int (n : Int) :
    (toString n).toList =
      (if n < 0 then ['-'] else []) ++ Nat.toDigits 10 n.natAbs := by
  cases n with
  | ofNat m =>
      have nonnegative : ¬ Int.ofNat m < 0 := by simp
      rw [if_neg nonnegative]
      exact Nat.toList_repr
  | negSucc m =>
      have written : toString (Int.negSucc m) = "-" ++ Nat.repr (m + 1) := rfl
      rw [if_pos (Int.negSucc_lt_zero m), written, String.toList_append,
        Nat.toList_repr]
      rfl

theorem checkedInt_toInt (n : Int64) : checkedInt n.toInt = some n := by
  rw [checkedInt, if_pos ⟨n.minValue_le_toInt, n.toInt_le⟩, Int64.ofInt_toInt]

/-- An integer that fits is the value of its word. -/
theorem checkedInt_eq_some_iff
    {n : Int}
    {word : Int64} :
    checkedInt n = some word ↔ word.toInt = n := by
  refine ⟨toInt_of_checkedInt, ?_⟩
  rintro rfl
  exact checkedInt_toInt word

namespace Lexeme

theorem isDigit_of_mem_toDigits
    {n : Nat}
    {c : Char}
    (member : c ∈ Nat.toDigits 10 n) :
    c.isDigit = true :=
  Nat.isDigit_of_mem_toDigits (by decide) (by decide) member

/-- The digits of a natural number. -/
theorem NumberText.plain_toDigits
    (n : Nat) :
    (NumberText.mk (Nat.toDigits 10 n) none none).Plain :=
  ⟨⟨Nat.toDigits_ne_nil, fun _ => isDigit_of_mem_toDigits⟩, by simp, by simp⟩

/-- The digits of an integer without a sign spell it. -/
theorem spells_integer
    {n : Int64}
    (nonnegative : 0 ≤ n.toInt) :
    Spells Delimited (Nat.toDigits 10 n.toInt.natAbs) [.literal (.int n)] := by
  have shape :
      (NumberText.mk (Nat.toDigits 10 n.toInt.natAbs) none none).spelled =
        Nat.toDigits 10 n.toInt.natAbs := by
    simp [NumberText.spelled]
  have value : ((n.toInt.natAbs : Nat) : Int) = n.toInt := by omega
  rw [← shape]
  refine (NumberText.plain_toDigits n.toInt.natAbs).spells
    fun text scanned => ?_
  simp only [decimal, scanned, NumberText.isInteger, Option.isNone_none,
    Bool.and_self, if_true, integer, Decimal.ofDigits_toDigits, value,
    checkedInt_toInt]

/-- A number with a point or an exponent, whose double is given. -/
def Denotes (text : List Char) (x : Double) : Prop :=
  ∃ number : NumberText,
    number.Plain ∧ number.spelled = text ∧ number.isInteger = false ∧
      number.toDouble = x

/-- Digits around a point. -/
theorem denotes_pointed
    (whole fraction : List Char)
    (wholeGiven : whole ≠ [])
    (wholeDigits : ∀ c ∈ whole, c.isDigit = true)
    (fractionDigits : ∀ c ∈ fraction, c.isDigit = true) :
    Denotes (whole ++ '.' :: fraction)
      ((Decimal.ofParts whole fraction 0).toDouble false) := by
  refine ⟨⟨whole, some fraction, none⟩,
    ⟨⟨wholeGiven, wholeDigits⟩, ?_, by simp⟩, ?_, rfl, rfl⟩
  · intro digits isFraction
    cases isFraction
    exact fractionDigits
  · simp [NumberText.spelled]

theorem isDigit_of_mem_zeros
    {count : Nat}
    {c : Char}
    (member : c ∈ List.replicate count '0') :
    c.isDigit = true := by
  rw [List.eq_of_mem_replicate member]
  decide

/-- What is used of the digits of a decimal. -/
structure DigitsOf (d : Decimal) (digits : List Char) : Prop where
  given : digits ≠ []
  all : ∀ c ∈ digits, c.isDigit = true
  value : Decimal.ofDigits digits = d.digits

theorem digitsOf_toDigits
    (d : Decimal) :
    DigitsOf d (Nat.toDigits 10 d.digits) where
  given := Nat.toDigits_ne_nil
  all := fun _ => isDigit_of_mem_toDigits
  value := Decimal.ofDigits_toDigits d.digits

namespace DigitsOf

variable
  {d : Decimal}
  {digits : List Char}

/-- The point stands in front of the digits. -/
theorem denotes_inFront
    (digitsOf : DigitsOf d digits)
    {count : Nat}
    (place : d.exponent + digits.length = -(count : Int)) :
    Denotes (['0'] ++ '.' :: (List.replicate count '0' ++ digits))
      (d.toDouble false) := by
  have digitsOnly :
      ∀ c ∈ List.replicate count '0' ++ digits, c.isDigit = true :=
    List.forall_mem_append.mpr ⟨fun _ => isDigit_of_mem_zeros, digitsOf.all⟩
  have parts :
      Decimal.ofParts ['0'] (List.replicate count '0' ++ digits) 0 = d := by
    have zeros :
        ['0'] ++ (List.replicate count '0' ++ digits) =
          List.replicate (count + 1) '0' ++ digits := by
      rw [List.replicate_succ]
      rfl
    simp only [Decimal.ofParts, zeros, Decimal.ofDigits_zeros_append,
      digitsOf.value, List.length_append, List.length_replicate]
    congr 1
    omega
  have denotes := denotes_pointed ['0'] _ (by simp) (by simp) digitsOnly
  rwa [parts] at denotes

/-- The point stands behind the digits and some zeros. -/
theorem denotes_behind
    (digitsOf : DigitsOf d digits)
    {count : Nat}
    (place : d.exponent = count) :
    Denotes (digits ++ List.replicate count '0' ++ ['.', '0'])
      (d.toDouble false) := by
  have digitsOnly :
      ∀ c ∈ digits ++ List.replicate count '0', c.isDigit = true :=
    List.forall_mem_append.mpr ⟨digitsOf.all, fun _ => isDigit_of_mem_zeros⟩
  have parts :
      Decimal.ofParts (digits ++ List.replicate count '0') ['0'] 0 =
        ⟨d.digits * 10 ^ (count + 1),
          d.exponent - ((count + 1 : Nat) : Int)⟩ := by
    have zeros :
        digits ++ List.replicate count '0' ++ ['0'] =
          digits ++ List.replicate (count + 1) '0' := by
      rw [List.replicate_succ', List.append_assoc]
    simp only [Decimal.ofParts, zeros, Decimal.ofDigits_append_zeros,
      digitsOf.value, List.length_singleton]
    congr 1
    omega
  have denotes :=
    denotes_pointed _ ['0']
      (List.append_ne_nil_of_left_ne_nil digitsOf.given _) digitsOnly (by simp)
  rwa [parts, Decimal.toDouble_shift] at denotes

/-- The point stands between the digits. -/
theorem denotes_between
    (digitsOf : DigitsOf d digits)
    {place : Nat}
    (isPlace : d.exponent + digits.length = place)
    (inside : 0 < place ∧ place < digits.length) :
    Denotes (digits.take place ++ '.' :: digits.drop place)
      (d.toDouble false) := by
  have taken : digits.take place ≠ [] := by
    rw [Ne, List.take_eq_nil_iff]
    rintro (zero | empty)
    · omega
    · exact digitsOf.given empty
  have parts :
      Decimal.ofParts (digits.take place) (digits.drop place) 0 = d := by
    simp only [Decimal.ofParts, List.take_append_drop, digitsOf.value,
      List.length_drop]
    congr 1
    omega
  have denotes :=
    denotes_pointed (digits.take place) (digits.drop place) taken
      (fun c member => digitsOf.all c (List.mem_of_mem_take member))
      (fun c member => digitsOf.all c (List.mem_of_mem_drop member))
  rwa [parts] at denotes

/-- A decimal written with a point. -/
theorem denotes_positionalText
    (digitsOf : DigitsOf d digits) :
    Denotes
      (NumberLayout.positionalText true digits (d.exponent + digits.length))
      (d.toDouble false) := by
  simp only [NumberLayout.positionalText]
  split
  · rename_i inFront
    exact digitsOf.denotes_inFront (by omega)
  · rename_i behindFirst
    split
    · rename_i behindLast
      exact digitsOf.denotes_behind (by omega)
    · rename_i behindNotLast
      exact digitsOf.denotes_between (by omega) (by omega)

/-- A decimal written with an exponent. -/
theorem denotes_exponentText
    (digitsOf : DigitsOf d digits) :
    Denotes (NumberLayout.exponentText digits (d.exponent + digits.length))
      (d.toDouble false) := by
  obtain ⟨power, isPower⟩ : ∃ power, power = d.exponent + digits.length - 1 :=
    ⟨_, rfl⟩
  obtain ⟨first, others, rfl⟩ := List.exists_cons_of_ne_nil digitsOf.given
  let exponent : ExponentText :=
    ⟨if power < 0 then ['-'] else [], Nat.toDigits 10 power.natAbs⟩
  let number : NumberText :=
    ⟨[first], if others.isEmpty then none else some others, some exponent⟩
  have powerText : (toString power).toList = exponent.sign ++ exponent.digits :=
    toList_toString_int power
  have powerValue : number.exponentValue = power := by
    simp only [NumberText.exponentValue, number, exponent,
      Decimal.ofDigits_toDigits]
    by_cases negative : power < 0
    · simp only [negative, if_true]
      omega
    · simp only [negative, if_false, List.nil_eq, List.cons_ne_nil]
      omega
  refine ⟨number, ⟨⟨by simp [number], ?_⟩, ?_, ?_⟩, ?_, ?_, ?_⟩
  · intro c member
    obtain rfl := List.mem_singleton.mp member
    exact digitsOf.all c List.mem_cons_self
  · intro fraction isFraction c member
    cases others with
    | nil => cases isFraction
    | cons second more =>
        cases isFraction
        exact digitsOf.all c (List.mem_cons_of_mem first member)
  · intro part isPart
    cases isPart
    refine ⟨?_, Nat.toDigits_ne_nil, fun c => isDigit_of_mem_toDigits⟩
    by_cases negative : power < 0
    · exact .inr (by simp [exponent, negative])
    · exact .inl (by simp [exponent, negative])
  · rw [NumberLayout.exponentText, ← isPower, powerText]
    cases others with
    | nil => rfl
    | cons second more => rfl
  · rw [NumberText.isInteger, Bool.and_eq_false_iff]
    exact .inr rfl
  · have parts :
        Decimal.ofParts number.whole (number.fraction.getD [])
          number.exponentValue = d := by
      have fraction : number.fraction.getD [] = others := by
        cases others <;> rfl
      rw [fraction, powerValue, Decimal.ofParts]
      have digits : number.whole ++ others = first :: others := rfl
      rw [digits, digitsOf.value, isPower, List.length_cons]
      congr 1
      omega
    rw [NumberText.toDouble, parts]

end DigitsOf

/-- The text of a decimal reads back. -/
theorem denotes_decimalText (d : Decimal) :
    Denotes (NumberLayout.marked.decimalText d) (d.toDouble false) := by
  simp only [NumberLayout.decimalText, NumberLayout.marked]
  exact iteInduction (motive := fun text => Denotes text (d.toDouble false))
    (fun _ => (digitsOf_toDigits d).denotes_positionalText)
    (fun _ => (digitsOf_toDigits d).denotes_exponentText)

/--
The text of a finite double is that of its absolute value, perhaps behind a
sign.
-/
theorem toList_write
    {x : Double}
    (finite : x.isFinite = true) :
    (NumberLayout.marked.write x).toList =
      (if x.isNegative then ['-'] else []) ++
        (NumberLayout.marked.write x.abs).toList := by
  have number := Double.isNaN_of_isFinite finite
  have absNumber : x.abs.isNaN = false := by
    rw [Double.isNaN, Double.magnitude_abs]
    exact number
  have absFinite : x.abs.isFinite = true := by
    rw [Double.isFinite, Double.magnitude_abs]
    exact finite
  simp only [NumberLayout.write, number, absNumber, finite, absFinite,
    Decimal.shortest_abs, Double.magnitude_abs, Double.isNegative_abs,
    Bool.false_eq_true, if_false, String.toList_ofList]
  cases x.isNegative <;> rfl

/-- The text of a finite double without a sign reads back. -/
theorem denotes_write
    {x : Double}
    (finite : x.isFinite = true)
    (nonnegative : x.isNegative = false) :
    Denotes (NumberLayout.marked.write x).toList x := by
  have number := Double.isNaN_of_isFinite finite
  simp only [NumberLayout.write, number, finite, nonnegative,
    Bool.false_eq_true, if_false, Bool.not_true, String.toList_ofList]
  split
  · rename_i zero
    refine ⟨⟨['0'], some ['0'], none⟩, ⟨by simp, by simp, by simp⟩, rfl, rfl,
      ?_⟩
    exact Double.eq_of_magnitude (by rw [nonnegative]; rfl) (by rw [zero]; rfl)
  · rename_i nonzero
    have readsBack := Decimal.toDouble_shortest finite nonzero
    rw [Double.abs_of_not_isNegative nonnegative] at readsBack
    have denotes := denotes_decimalText (Decimal.shortest x)
    rw [readsBack] at denotes
    exact denotes

/-- The text of a finite double without a sign spells it. -/
theorem spells_double
    {x : Double}
    (finite : x.isFinite = true)
    (nonnegative : x.isNegative = false) :
    Spells Delimited (NumberLayout.marked.write x).toList
      [.literal (.double x)] := by
  obtain ⟨number, plain, spelled, marked, value⟩ :=
    denotes_write finite nonnegative
  rw [← spelled]
  refine plain.spells fun text scanned => ?_
  simp only [decimal, scanned, marked, Bool.false_eq_true, if_false, value,
    finite, if_true]

/-- A quoted character is read as the character. -/
theorem stringBody_quoteChar
    (offset : Nat)
    (c : Char)
    (rest : List Char) :
    stringBody offset (Text.quoteChar c ++ rest) =
      consChar c (stringBody (offset + (Text.quoteChar c).length) rest) := by
  unfold Text.quoteChar
  cases escaped : Text.escapeMark? c with
  | some mark =>
      simp [stringBody, Text.unescape?_of_escapeMark? escaped]
  | none =>
      have notQuote : c ≠ '"' := by rintro rfl; cases escaped
      have notBackslash : c ≠ '\\' := by rintro rfl; cases escaped
      have notBreak : c ≠ '\n' := by rintro rfl; cases escaped
      simp only [List.singleton_append, List.length_singleton]
      rw [stringBody.eq_def]
      split <;> simp_all

/-- Quoted text is read up to the closing quote. -/
theorem stringBody_quoted
    (offset : Nat)
    (text rest : List Char) :
    stringBody offset (text.flatMap Text.quoteChar ++ '"' :: rest) =
      .ok (text, offset + (text.flatMap Text.quoteChar).length) := by
  induction text generalizing offset with
  | nil => simp [stringBody]
  | cons c others inductionHypothesis =>
      rw [List.flatMap_cons, List.append_assoc, stringBody_quoteChar,
        inductionHypothesis, consChar, List.length_append, Nat.add_assoc]

/--
After an opening quote, quoted text and its closing quote are the whole lexeme.
-/
theorem read_quoted (text rest : List Char) :
    read '"' (text.flatMap Text.quoteChar ++ ['"'] ++ rest) =
      .ok ⟨.literal (.string (String.ofList text)),
        (text.flatMap Text.quoteChar ++ ['"']).length⟩ := by
  have opened (body : List Char) : classOf '"' body = .string body := by
    simp [classOf]
  rw [read, opened, List.append_assoc, List.singleton_append]
  simp only [string, stringBody_quoted, List.length_append,
    List.length_singleton, Nat.add_comm]

/-- A quoted text spells the string. -/
theorem spells_string (text : String) :
    Spells Anything (Text.quote text).toList [.literal (.string text)] := by
  rw [Text.quote, String.toList_ofList, Text.quoteChars, List.cons_append]
  refine Spells.lexeme (by decide) rfl fun rest _ => ?_
  rw [read_quoted, String.ofList_toList]

/-- The words of truth values spell them. -/
theorem spells_bool (truth : Bool) :
    Spells Delimited (if truth then "true" else "false").toList
      [.literal (.bool truth)] := by
  cases truth with
  | true =>
      refine spells_word ⟨'t', _, rfl, by decide, ?_⟩
      exact List.all_eq_true.mp (by decide)
  | false =>
      refine spells_word ⟨'f', _, rfl, by decide, ?_⟩
      exact List.all_eq_true.mp (by decide)

end Lexeme

end Formulary
