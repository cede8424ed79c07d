import Dap.Lib.JsString
import Dap.Lib.JsonRead
import Mathlib.Data.List.DropRight

/-! The finite numbers of JavaScript by the decimal digits that stand for them, written the way
`Number::toString` writes them, and read back from a JSON text. -/
namespace Dap
open Json
namespace JsNumber

/-- Digits that say no more than needed, of a number that is not printed as an integer. -/
def Normal (digits : List Char) (point : ℤ) : Prop :=
  digits.all isDigit = true ∧ digits.head?.any (· ≠ '0') = true ∧
    digits.getLast?.any (· ≠ '0') = true ∧ ¬ (digits.length ≤ point ∧ point ≤ 21)

instance (digits : List Char) (point : ℤ) : Decidable (Normal digits point) := by
  unfold Normal
  infer_instance

end JsNumber

/-- `0.digits × 10^point`. -/
structure JsDecimal where
  neg : Bool
  digits : List Char
  point : ℤ
  normal : JsNumber.Normal digits point

/-- Negative zero is printed as zero, and is zero here. -/
inductive JsNumber where
  | int (n : { n : ℤ // n.natAbs < 10 ^ 21 })
  | dec (d : JsDecimal)

namespace JsNumber

/-! ### Writing -/

def exponent (p : ℤ) : List Char :=
  'e' :: (if 0 < p then '+' else '-') :: Nat.toDigits 10 (p - 1).natAbs

def point (digits : List Char) (p : ℤ) : List Char :=
  if 0 < p ∧ p ≤ 21 then digits.take p.toNat ++ '.' :: digits.drop p.toNat
  else if -6 < p ∧ p ≤ 0 then '0' :: '.' :: (List.replicate (-p).toNat '0' ++ digits)
  else
    match digits with
    | c :: d :: cs => c :: '.' :: (d :: cs ++ exponent p)
    | cs => cs ++ exponent p

def sign (neg : Bool) : List Char := if neg then ['-'] else []

/-- `Number::toString`. -/
def text : JsNumber → String
  | int n => toString n.val
  | dec d => String.ofList (sign d.neg ++ point d.digits d.point)

@[simp] theorem text_int (n : { n : ℤ // n.natAbs < 10 ^ 21 }) :
    (int n).text = toString n.val := rfl

/-! ### Reading -/

def readFrac : List Char → List Char × List Char
  | '.' :: cs => cs.span isDigit
  | cs => ([], cs)

/-- The exponent after its letter. -/
def readExp : List Char → ℤ
  | _ :: '-' :: ds => -GoJson.digitsValue ds
  | _ :: '+' :: ds => GoJson.digitsValue ds
  | _ :: ds => GoJson.digitsValue ds
  | [] => 0

def signed (neg : Bool) (n : ℕ) : ℤ := if neg then -n else n

/-- What `0.digits × 10^p` is once its zeros on either side are gone. -/
def ofDigits (neg : Bool) (digits : List Char) (p : ℤ) : JsNumber :=
  let stripped := digits.dropWhile (· = '0')
  let p := p - (digits.length - stripped.length : ℕ)
  let trimmed := stripped.rdropWhile (· = '0')
  if h : Normal trimmed p then .dec ⟨neg, trimmed, p, h⟩
  else
    let n := signed neg
      (GoJson.digitsValue (trimmed ++ List.replicate (p.toNat - trimmed.length) '0'))
    if h : n.natAbs < 10 ^ 21 then .int ⟨n, h⟩ else .int ⟨0, by decide⟩

def readUnsigned (neg : Bool) (cs : List Char) : JsNumber :=
  let int := cs.span isDigit
  let frac := readFrac int.2
  ofDigits neg (int.1 ++ frac.1) (int.1.length + readExp frac.2)

/-- The number that a JSON number literal is. -/
def ofLiteral (literal : String) : JsNumber :=
  match literal.toList with
  | '-' :: cs => readUnsigned true cs
  | cs => readUnsigned false cs

/-! ### The shape of what is written -/

theorem Normal.forall {digits : List Char} {p : ℤ} (h : Normal digits p) :
    ∀ c ∈ digits, isDigit c = true := List.all_eq_true.mp h.1

theorem Normal.exists_cons {digits : List Char} {p : ℤ} (h : Normal digits p) :
    ∃ c cs, digits = c :: cs ∧ c ≠ '0' ∧ isDigit c = true := by
  have hhead := h.2.1
  cases digits with
  | nil => simp at hhead
  | cons c cs => exact ⟨c, cs, rfl, by simpa using hhead, h.forall c (by simp)⟩

theorem Normal.dropWhile {digits : List Char} {p : ℤ} (h : Normal digits p) (n : ℕ) :
    (List.replicate n '0' ++ digits).dropWhile (· = '0') = digits := by
  obtain ⟨c, cs, rfl, hc, -⟩ := h.exists_cons
  induction n with
  | zero => simp [hc]
  | succ n ih => simpa [List.replicate_succ] using ih

theorem Normal.rdropWhile {digits : List Char} {p : ℤ} (h : Normal digits p) :
    digits.rdropWhile (· = '0') = digits := by
  apply List.rdropWhile_eq_self_iff.mpr
  intro hne
  have hlast := h.2.2.1
  rw [List.getLast?_eq_some_getLast hne] at hlast
  simpa using hlast

theorem ofDigits_normal (neg : Bool) {digits : List Char} {p : ℤ} (h : Normal digits p) (n : ℕ) :
    ofDigits neg (List.replicate n '0' ++ digits) (p + n) = .dec ⟨neg, digits, p, h⟩ := by
  have hp : p + n - ((List.replicate n '0' ++ digits).length - digits.length : ℕ) = p := by
    rw [List.length_append, List.length_replicate, Nat.add_sub_cancel]
    omega
  unfold ofDigits
  simp only [h.dropWhile, h.rdropWhile, hp]
  rw [dif_pos h]

theorem readExp_exponent (p : ℤ) : readExp (exponent p) = p - 1 := by
  unfold exponent
  by_cases hp : 0 < p
  · rw [if_pos hp]
    change ((GoJson.digitsValue (Nat.toDigits 10 (p - 1).natAbs) : ℕ) : ℤ) = p - 1
    rw [GoJson.digitsValue_toDigits]
    omega
  · rw [if_neg hp]
    change -((GoJson.digitsValue (Nat.toDigits 10 (p - 1).natAbs) : ℕ) : ℤ) = p - 1
    rw [GoJson.digitsValue_toDigits]
    omega

theorem head_exponent {p : ℤ} : ∀ c ∈ (exponent p).head?, isDigit c = false := by
  intro c hc
  obtain rfl : 'e' = c := by simpa [exponent] using hc
  decide

theorem readUnsigned_point (neg : Bool) {digits : List Char} {p : ℤ} (h : Normal digits p) :
    readUnsigned neg (point digits p) = .dec ⟨neg, digits, p, h⟩ := by
  have hdot : isDigit '.' = false := by decide
  have hplain := ofDigits_normal neg h 0
  simp only [List.replicate_zero, List.nil_append, Nat.cast_zero, add_zero] at hplain
  unfold point
  split
  next hint =>
    have htake : ∀ c ∈ digits.take p.toNat, isDigit c = true := fun c hc =>
      h.forall c (List.mem_of_mem_take hc)
    have hdrop : ∀ c ∈ digits.drop p.toNat, isDigit c = true := fun c hc =>
      h.forall c (List.mem_of_mem_drop hc)
    have hspan := @span_isDigit _ ('.' :: digits.drop p.toNat) htake (by simpa using hdot)
    have hfrac := @span_isDigit _ [] hdrop (by simp)
    have hshort : ((digits.take p.toNat).length : ℤ) = p := by
      have hnot := h.2.2.2
      rw [List.length_take]
      omega
    rw [List.append_nil] at hfrac
    rw [readUnsigned, hspan]
    simp only [readFrac, hfrac, readExp, List.take_append_drop, hshort, add_zero]
    exact hplain
  next hbig =>
    split
    next hsmall =>
      have hzeros : ∀ c ∈ List.replicate (-p).toNat '0' ++ digits, isDigit c = true := by
        intro c hc
        rcases List.mem_append.mp hc with hz | hd
        · rw [List.eq_of_mem_replicate hz]
          decide
        · exact h.forall c hd
      have hzero : ∀ c ∈ ['0'], isDigit c = true := by
        intro c hc
        rw [List.mem_singleton.mp hc]
        decide
      have hspan := @span_isDigit ['0']
        ('.' :: (List.replicate (-p).toNat '0' ++ digits)) hzero (by simpa using hdot)
      have hfrac := @span_isDigit _ [] hzeros (by simp)
      have hnumber := ofDigits_normal neg h ((-p).toNat + 1)
      rw [List.append_nil] at hfrac
      rw [List.singleton_append] at hspan
      rw [readUnsigned, hspan]
      simp only [readFrac, hfrac, readExp, add_zero]
      rw [List.replicate_succ, List.cons_append] at hnumber
      rw [List.singleton_append, ← hnumber]
      congr 1
      simp only [List.length_singleton]
      omega
    next hneither =>
      obtain ⟨c, cs, rfl, -, hc⟩ := h.exists_cons
      have hone : ∀ d ∈ [c], isDigit d = true := by simpa using hc
      have hcs : ∀ d ∈ cs, isDigit d = true := fun d hd => h.forall d (List.mem_cons_of_mem c hd)
      have hpoint : ((1 : ℕ) : ℤ) + (p - 1) = p := by omega
      cases cs with
      | nil =>
        have hspan := span_isDigit hone (head_exponent (p := p))
        have hfrac : readFrac (exponent p) = ([], exponent p) := rfl
        dsimp only
        rw [readUnsigned, hspan]
        simp only [hfrac, readExp_exponent, List.append_nil, List.length_singleton, hpoint]
        exact hplain
      | cons d ds =>
        have hspan := @span_isDigit _ ('.' :: (d :: ds ++ exponent p)) hone (by simpa using hdot)
        have hfrac := span_isDigit hcs (head_exponent (p := p))
        rw [List.singleton_append] at hspan
        dsimp only
        rw [readUnsigned, hspan]
        simp only [readFrac, hfrac, readExp_exponent, List.length_singleton, hpoint]
        exact hplain

theorem ofDigits_toDigits (neg : Bool) {m : ℕ} (h : m < 10 ^ 21)
    (hsigned : (signed neg m).natAbs < 10 ^ 21) :
    ofDigits neg (Nat.toDigits 10 m) (Nat.toDigits 10 m).length = .int ⟨signed neg m, hsigned⟩ := by
  have hvalue := GoJson.digitsValue_toDigits m
  have hlen : (Nat.toDigits 10 m).length ≤ 21 :=
    (Nat.length_toDigits_le_iff (by decide) (by decide)).mpr h
  rcases Nat.eq_zero_or_pos m with rfl | hm
  · cases neg <;> rfl
  · have hhead := head_toDigits hm
    generalize Nat.toDigits 10 m = digits at hvalue hlen hhead ⊢
    have hstripped : digits.dropWhile (· = '0') = digits := by
      cases digits with
      | nil => rfl
      | cons c cs => simp [hhead c rfl]
    have hsplit : digits.rdropWhile (· = '0') ++
        List.replicate (digits.length - (digits.rdropWhile (· = '0')).length) '0' = digits := by
      have happend := digits.rdropWhile_append_rtakeWhile (p := fun c => decide (c = '0'))
      have hzeros : digits.rtakeWhile (· = '0') =
          List.replicate (digits.rtakeWhile (· = '0')).length '0' := by
        apply List.eq_replicate_of_mem
        intro c hc
        simpa using List.mem_rtakeWhile_imp hc
      have hlength := congrArg List.length happend
      rw [List.length_append] at hlength
      have hrest : digits.length - (digits.rdropWhile (· = '0')).length =
          (digits.rtakeWhile (· = '0')).length := by omega
      rw [hrest, ← hzeros]
      exact happend
    have hshort : (digits.rdropWhile (· = '0')).length ≤ digits.length :=
      (List.rdropWhile_prefix _ digits).length_le
    have hnot : ¬ Normal (digits.rdropWhile (· = '0')) digits.length := by
      intro hnormal
      exact hnormal.2.2.2 (by omega)
    unfold ofDigits
    simp only [hstripped, Nat.sub_self, Nat.cast_zero, sub_zero, Int.toNat_natCast, hsplit, hvalue]
    rw [dif_neg hnot, dif_pos hsigned]

theorem readUnsigned_toDigits (neg : Bool) {m : ℕ} (h : m < 10 ^ 21)
    (hsigned : (signed neg m).natAbs < 10 ^ 21) :
    readUnsigned neg (Nat.toDigits 10 m) = .int ⟨signed neg m, hsigned⟩ := by
  have hspan := @span_isDigit _ [] (fun c => isDigit_toDigits (n := m)) (by simp)
  rw [List.append_nil] at hspan
  rw [readUnsigned, hspan]
  simp only [readFrac, readExp, List.append_nil, add_zero]
  exact ofDigits_toDigits neg h hsigned

theorem ofLiteral_sign {neg : Bool} {cs : List Char} (h : ∀ c ∈ cs.head?, c ≠ '-') :
    ofLiteral (String.ofList (sign neg ++ cs)) = readUnsigned neg cs := by
  rw [ofLiteral, String.toList_ofList]
  cases neg with
  | true => rfl
  | false =>
    rw [sign, if_neg (by decide), List.nil_append]
    split
    next hcons => exact absurd rfl (h '-' rfl)
    next => rfl

theorem point_head {digits : List Char} {p : ℤ} (h : Normal digits p) :
    ∃ c cs, point digits p = c :: cs ∧ isDigit c = true := by
  obtain ⟨c, cs, rfl, -, hc⟩ := h.exists_cons
  unfold point
  split
  next hint =>
    obtain ⟨n, hn⟩ : ∃ n, p.toNat = n + 1 := ⟨p.toNat - 1, by omega⟩
    rw [hn]
    exact ⟨c, _, rfl, hc⟩
  next =>
    split
    next => exact ⟨'0', _, rfl, by decide⟩
    next => cases cs <;> exact ⟨c, _, rfl, hc⟩

theorem ofLiteral_text (x : JsNumber) : ofLiteral x.text = x := by
  cases x with
  | dec d =>
    obtain ⟨c, cs, hbody, hc⟩ := point_head d.normal
    rw [text, ofLiteral_sign, readUnsigned_point d.neg d.normal]
    intro c' hc'
    rw [hbody, List.head?_cons, Option.mem_some_iff] at hc'
    subst hc'
    rintro rfl
    exact absurd hc (by decide)
  | int n =>
    obtain ⟨n, hn⟩ := n
    have hsign : ∃ neg, text (.int ⟨n, hn⟩) =
        String.ofList (sign neg ++ Nat.toDigits 10 n.natAbs) ∧ signed neg n.natAbs = n := by
      by_cases h : 0 ≤ n
      · refine ⟨false, String.toList_inj.mp ?_, ?_⟩
        · rw [text, toList_toString, if_pos h, String.toList_ofList]
          rfl
        · simp only [signed, Bool.false_eq_true, if_false]
          omega
      · refine ⟨true, String.toList_inj.mp ?_, ?_⟩
        · rw [text, toList_toString, if_neg h, String.toList_ofList]
          rfl
        · simp only [signed, if_true]
          omega
    obtain ⟨neg, htext, hvalue⟩ := hsign
    have hread := readUnsigned_toDigits neg (m := n.natAbs) hn (by rw [hvalue]; exact hn)
    rw [htext, ofLiteral_sign, hread]
    · simp only [hvalue]
    · intro c hc
      have hdigit := isDigit_toDigits (n := n.natAbs) (c := c) (List.mem_of_mem_head? hc)
      rintro rfl
      exact absurd hdigit (by decide)

/-! ### What a JSON reader makes of it -/

theorem scanNumber_parts {neg : Bool} {int frac exp : List Char}
    (hhead : ∃ c cs, int = c :: cs ∧ isDigit c = true)
    (hint : scanInt (int ++ (frac ++ exp)) = some (int, frac ++ exp))
    (hfrac : scanFrac (frac ++ exp) = some (frac, exp)) (hexp : scanExp exp = some (exp, [])) :
    scanNumber (sign neg ++ (int ++ (frac ++ exp))) =
      some (sign neg ++ (int ++ (frac ++ exp)), []) := by
  have hscan := scanUnsigned_parts hint hfrac hexp
  rw [List.append_assoc] at hscan
  cases neg with
  | true =>
    rw [sign, if_pos rfl, List.singleton_append, scanNumber_minus, hscan]
    rfl
  | false =>
    obtain ⟨c, cs, rfl, hc⟩ := hhead
    have hminus : c ≠ '-' := by
      rintro rfl
      exact absurd hc (by decide)
    rw [sign, if_neg (by decide), List.nil_append, ← hscan]
    exact scanNumber_unsigned hminus

theorem scanInt_digits {c : Char} {cs rest : List Char} (hzero : c ≠ '0')
    (hall : ∀ d ∈ c :: cs, isDigit d = true) (hrest : ∀ d ∈ rest.head?, isDigit d = false) :
    scanInt (c :: cs ++ rest) = some (c :: cs, rest) := by
  have hspan := span_isDigit hall hrest
  rw [List.cons_append] at hspan ⊢
  rw [scanInt, if_neg hzero, if_pos (hall c (by simp)), hspan]

theorem scanFrac_digits {c : Char} {cs rest : List Char} (hall : ∀ d ∈ c :: cs, isDigit d = true)
    (hrest : ∀ d ∈ rest.head?, isDigit d = false) :
    scanFrac ('.' :: (c :: cs) ++ rest) = some ('.' :: c :: cs, rest) := by
  have hspan := span_isDigit hall hrest
  rw [List.cons_append, scanFrac, hspan]

theorem scanExp_exponent (p : ℤ) : scanExp (exponent p) = some (exponent p, []) := by
  have hspan := @span_isDigit _ [] (fun c => isDigit_toDigits (n := (p - 1).natAbs)) (by simp)
  have hne := Nat.toDigits_ne_nil (n := (p - 1).natAbs) (b := 10)
  rw [List.append_nil] at hspan
  unfold exponent
  generalize Nat.toDigits 10 (p - 1).natAbs = ds at hspan hne ⊢
  cases ds with
  | nil => exact absurd rfl hne
  | cons d ds =>
    have hexp : ∀ c, scanSign (c :: d :: ds) = ([c], d :: ds) →
        scanExp ('e' :: c :: d :: ds) = some ('e' :: c :: d :: ds, []) := by
      intro c hc
      rw [scanExp, if_pos (Or.inl rfl), hc]
      dsimp only
      rw [hspan]
      rfl
    split
    · exact hexp '+' rfl
    · exact hexp '-' rfl

theorem scanNumber_point (neg : Bool) {digits : List Char} {p : ℤ} (h : Normal digits p) :
    scanNumber (sign neg ++ point digits p) = some (sign neg ++ point digits p, []) := by
  have hdot : isDigit '.' = false := by decide
  obtain ⟨c, cs, rfl, hzero, hc⟩ := h.exists_cons
  unfold point
  split
  next hint =>
    have hshort : p.toNat < (c :: cs).length := by
      have hnot := h.2.2.2
      omega
    obtain ⟨n, hn⟩ : ∃ n, p.toNat = n + 1 := ⟨p.toNat - 1, by omega⟩
    have htake : ∀ d ∈ c :: cs.take n, isDigit d = true := fun d hd =>
      h.forall d (by rw [← List.take_succ_cons] at hd; exact List.mem_of_mem_take hd)
    cases hrest : (c :: cs).drop p.toNat with
    | nil =>
      rw [List.drop_eq_nil_iff] at hrest
      omega
    | cons d ds =>
      have hdrop : ∀ x ∈ d :: ds, isDigit x = true := fun x hx =>
        h.forall x (List.mem_of_mem_drop (hrest ▸ hx))
      have hparts := @scanNumber_parts neg (c :: cs.take n) ('.' :: d :: ds) []
        ⟨c, _, rfl, hc⟩ (scanInt_digits hzero htake (by simpa using hdot))
        (scanFrac_digits hdrop (by simp)) rfl
      rw [hn, List.take_succ_cons]
      rwa [List.append_nil] at hparts
  next =>
    split
    next =>
      have hzeros : ∀ d ∈ List.replicate (-p).toNat '0' ++ c :: cs, isDigit d = true := by
        intro d hd
        rcases List.mem_append.mp hd with hz | hcs
        · rw [List.eq_of_mem_replicate hz]
          decide
        · exact h.forall d hcs
      cases hfrac : List.replicate (-p).toNat '0' ++ c :: cs with
      | nil => simp at hfrac
      | cons d ds =>
        rw [hfrac] at hzeros
        have hparts := @scanNumber_parts neg ['0'] ('.' :: d :: ds) []
          ⟨'0', [], rfl, by decide⟩ rfl (scanFrac_digits hzeros (by simp)) rfl
        rwa [List.append_nil, List.singleton_append] at hparts
    next =>
      have hone : ∀ d ∈ [c], isDigit d = true := by simpa using hc
      cases cs with
      | nil =>
        have hparts := @scanNumber_parts neg [c] [] (exponent p)
          ⟨c, [], rfl, hc⟩ (scanInt_digits hzero hone head_exponent) rfl (scanExp_exponent p)
        rwa [List.nil_append] at hparts
      | cons d ds =>
        have hds : ∀ x ∈ d :: ds, isDigit x = true := fun x hx =>
          h.forall x (List.mem_cons_of_mem c hx)
        have hparts := @scanNumber_parts neg [c] ('.' :: d :: ds) (exponent p)
          ⟨c, [], rfl, hc⟩ (scanInt_digits hzero hone (by simpa using hdot))
          (scanFrac_digits hds head_exponent) (scanExp_exponent p)
        rwa [List.singleton_append] at hparts

theorem numeric_text (x : JsNumber) : Numeric x.text := by
  cases x with
  | int n => exact numeric_toString n.val
  | dec d => exact numeric_scanNumber (scanNumber_point d.neg d.normal)

end JsNumber
end Dap
