import Mosh.Library.Checked
import Mosh.Library.Decimal

/-!
# The amount of an order

An order is paid by a wallet that is given a URL, and what the wallet asks the user to pay is the
amount that the URL names. The core takes an order from the issuer only after it has compared the
URL with the order (`plus/types.rs`).

* `PlusOrder.validate`: the checks on an order;
* `validate_eq_ok`: what an order satisfies that passes them;
* `not_overflow`: the tokens that are accepted have few enough decimals;
* `payment_amount_exact`: the amount that is asked for is that of the order.
-/

namespace Mosh.Plus

open Checked

/-- A URL as the url crate reads it. -/
structure PaymentUrl where
  scheme : String
  path : String
  fragment : Option String
  queryPairs : List (String × String)
  deriving DecidableEq, Repr

/-- The values of a parameter. -/
def PaymentUrl.values (uri : PaymentUrl) (key : String) : List String :=
  (uri.queryPairs.filter (·.1 = key)).map (·.2)

/-- An order, without what its validation does not read. -/
structure PlusOrder where
  id : String
  network : String
  product : String
  mint : String
  recipient : String
  amountAtomic : String
  reference : String
  paymentUri : String
  asset : Option String
  tokenDecimals : Option UInt8
  deriving DecidableEq, Repr

/-- An order is refused, or else a power of ten has no place in 64 bits. -/
inductive PlusFault
  | refused (message : String)
  | overflow
  deriving DecidableEq, Repr

/-- A number of 64 bits, with a plus sign in front or without. -/
def parseU64 (text : String) : Option Nat :=
  (Decimal.digits (if text.toList.head? = some '+' then text.toList.tail else text.toList)).filter
    (· < 2 ^ 64)

/-- The amount in units of the token. -/
def decimalText (amount decimals : Nat) : String :=
  let units := 10 ^ decimals
  let fraction := (Padded.padded decimals (amount % units)).rdropWhile (· = '0')
  String.ofList
    ((toString (amount / units)).toList ++ (if fraction = [] then [] else ['.']) ++ fraction)

namespace PlusOrder

/-- The decimals of the token. -/
def decimals (o : PlusOrder) : Nat := (o.tokenDecimals.getD 9).toNat

def validProduct (o : PlusOrder) : Bool :=
  if o.network = "solana-devnet" ∧ o.product = "mosh-plus-30d" then o.tokenDecimals.all (· = 9)
  else if o.network = "solana-mainnet" ∧ o.product = "mosh-plus-supporter-30d" then
    decide (o.asset = some "USDC" ∧ o.mint = "EPjFWdd5AufqSSqeM2qN1xzybapC8G4wEGGkZwyTDt1v" ∧
      o.tokenDecimals = some 6) ||
    decide (o.asset = some "CLXAI" ∧ o.mint = "ECZV4aRyQKz2zr3ZFB9qeb4EzJbzuMCQZ2gpiBQfoHrK" ∧
      o.tokenDecimals = some 9)
  else false

/-- The checks on an order. -/
def validate (parse : String → Option PaymentUrl) (o : PlusOrder) : Except PlusFault Unit := do
  let amount ← getOr (.refused "invalid PLUS price") (parseU64 o.amountAtomic)
  check (.refused "invalid PLUS order") (o.id ≠ "" && o.id.utf8ByteSize ≤ 128 && amount ≠ 0 &&
    toString amount = o.amountAtomic && o.validProduct)
  let uri ← getOr (.refused "invalid PLUS payment URI") (parse o.paymentUri)
  -- The power is computed before the rest of the URL is looked at.
  check .overflow (10 ^ o.decimals < 2 ^ 64)
  let decimal := decimalText amount o.decimals
  check (.refused "PLUS payment URI recipient mismatch")
    (uri.scheme = "solana" && uri.path = o.recipient && uri.fragment.isNone)
  [("amount", decimal), ("spl-token", o.mint), ("reference", o.reference)].forM fun field =>
    check (.refused "PLUS payment URI fields mismatch") (uri.values field.1 = [field.2])

/-- The order itself is as it has to be, its URL apart, and costs that amount. -/
def Costs (o : PlusOrder) (amount : Nat) : Prop :=
  o.amountAtomic = toString amount ∧ 1 ≤ amount ∧ amount < 2 ^ 64 ∧ o.id ≠ "" ∧
    o.id.utf8ByteSize ≤ 128 ∧ o.validProduct = true

/-- The URL is that of the order, its amount apart. -/
def PaidBy (o : PlusOrder) (uri : PaymentUrl) : Prop :=
  uri.scheme = "solana" ∧ uri.path = o.recipient ∧ uri.fragment = none ∧
    uri.values "spl-token" = [o.mint] ∧ uri.values "reference" = [o.reference]

end PlusOrder

variable {parse : String → Option PaymentUrl} {o o' : PlusOrder} {uri : PaymentUrl}
  {amount d : Nat}

/-! ## Numbers -/

theorem decimalText_eq (amount d : Nat) :
    decimalText amount d = String.ofList (Decimal.render d amount) := by
  rw [decimalText, Decimal.render, Decimal.write, Decimal.fractionDigits]
  split
  · next h =>
    rw [h]
    simp
  · simp

theorem toList_decimalText : (decimalText amount d).toList = Decimal.render d amount := by
  rw [decimalText_eq, String.toList_ofList]

/-- A number is read back from its digits. -/
theorem parseU64_toString (h : amount < 2 ^ 64) : parseU64 (toString amount) = some amount := by
  have hdigits : (toString amount).toList = Nat.toDigits 10 amount := Nat.toList_repr
  have hdigit : ∀ c ∈ Nat.toDigits 10 amount, c.isDigit = true := fun c =>
    Nat.isDigit_of_mem_toDigits (by decide) (by decide)
  have hplus : (Nat.toDigits 10 amount).head? ≠ some '+' := fun hhead => by
    cases hdigit '+' (List.mem_of_mem_head? hhead)
  rw [parseU64, hdigits, if_neg hplus, Decimal.digits_of_isDigit Nat.toDigits_ne_nil hdigit,
    Nat.ofDigitChars_toDigits (by decide) (by decide)]
  exact if_pos (decide_eq_true h)

theorem lt_of_parseU64 {text : String} (h : parseU64 text = some amount) : amount < 2 ^ 64 :=
  of_decide_eq_true (Option.filter_eq_some_iff.1 h).2

/-! ## The checks -/

/-- The tokens have six or nine decimals. -/
theorem decimals_of_validProduct (h : o.validProduct = true) : o.decimals = 6 ∨ o.decimals = 9 := by
  rw [PlusOrder.validProduct] at h
  rw [PlusOrder.decimals]
  split at h
  · cases hdecimals : o.tokenDecimals with
    | none => exact .inr rfl
    | some decimals =>
      rw [hdecimals] at h
      exact .inr (congrArg UInt8.toNat (of_decide_eq_true h))
  · split at h
    · rw [Bool.or_eq_true, decide_eq_true_eq, decide_eq_true_eq] at h
      rcases h with ⟨-, -, h⟩ | ⟨-, -, h⟩
      · exact .inl (by rw [h]; rfl)
      · exact .inr (by rw [h]; rfl)
    · cases h

theorem pow_decimals_lt (h : o.validProduct = true) : 10 ^ o.decimals < 2 ^ 64 := by
  rcases decimals_of_validProduct h with hsix | hnine
  · rw [hsix]
    decide
  · rw [hnine]
    decide

/-- Each of the fields is checked. -/
theorem forM_check {α ε : Type} {e : ε} {p : α → Bool} {l : List α} :
    (l.forM fun x => check e (p x)) = .ok () ↔ ∀ x ∈ l, p x = true := by
  induction l with
  | nil => exact iff_of_true rfl fun _ h => absurd h List.not_mem_nil
  | cons x l ih =>
    rw [List.forall_mem_cons, ← ih, ← check_eq_ok (e := e) (u := ())]
    change (check e (p x) >>= fun _ => l.forM fun x => check e (p x)) = _ ↔ _
    rw [bind_eq_ok]
    exact ⟨fun ⟨_, h⟩ => h, fun h => ⟨(), h⟩⟩

/-- An order passes exactly if it is as it has to be and its URL names its amount. -/
theorem validate_eq_ok : o.validate parse = .ok () ↔
    ∃ amount uri, o.Costs amount ∧ parse o.paymentUri = some uri ∧ o.PaidBy uri ∧
      uri.values "amount" = [decimalText amount o.decimals] := by
  simp only [PlusOrder.validate, bind_eq_ok, getOr_eq_ok, check_eq_ok, forM_check,
    List.forall_mem_cons, List.not_mem_nil, false_imp_iff, implies_true, and_true,
    Bool.and_eq_true, decide_eq_true_eq, Option.isNone_iff_eq_none]
  constructor
  · rintro ⟨amount, hamount, -, ⟨⟨⟨⟨hid, hlength⟩, hzero⟩, hcanonical⟩, hproduct⟩, uri, huri, -, -,
      -, ⟨⟨hscheme, hpath⟩, hfragment⟩, hvalue, hmint, hreference⟩
    exact ⟨amount, uri, ⟨hcanonical.symm, Nat.pos_of_ne_zero hzero, lt_of_parseU64 hamount, hid,
      hlength, hproduct⟩, huri, ⟨hscheme, hpath, hfragment, hmint, hreference⟩, hvalue⟩
  · rintro ⟨amount, uri, ⟨htext, hpos, hlt, hid, hlength, hproduct⟩, huri,
      ⟨hscheme, hpath, hfragment, hmint, hreference⟩, hvalue⟩
    refine ⟨amount, ?_, (), ⟨⟨⟨⟨hid, hlength⟩, (Nat.pos_iff_ne_zero.1 hpos)⟩, htext.symm⟩,
      hproduct⟩, uri, huri, (), pow_decimals_lt hproduct, (), ⟨⟨hscheme, hpath⟩, hfragment⟩,
      hvalue, hmint, hreference⟩
    rw [htext]
    exact parseU64_toString hlt

theorem bind_ne_error {α β ε : Type} {x : Except ε α} {f : α → Except ε β} {e : ε}
    (hx : x ≠ .error e) (hf : ∀ a, x = .ok a → f a ≠ .error e) : (x >>= f) ≠ .error e := by
  cases x with
  | error e' => exact fun h => hx (Except.error.inj h ▸ rfl)
  | ok a => exact hf a rfl

theorem check_refused_ne (message : String) (b : Bool) :
    check (PlusFault.refused message) b ≠ .error .overflow := by
  cases b <;> nofun

theorem getOr_refused_ne {α : Type} (message : String) (x : Option α) :
    getOr (PlusFault.refused message) x ≠ .error .overflow := by
  cases x <;> nofun

theorem forM_refused_ne {α : Type} (message : String) (p : α → Bool) (l : List α) :
    (l.forM fun x => check (PlusFault.refused message) (p x)) ≠ .error .overflow := by
  induction l with
  | nil => nofun
  | cons x l ih => exact bind_ne_error (check_refused_ne _ _) fun _ _ => ih

/-- The power of ten has its place: the token is looked at before. -/
theorem validate_ne_overflow : o.validate parse ≠ .error .overflow := by
  refine bind_ne_error (getOr_refused_ne _ _) fun amount _ => ?_
  refine bind_ne_error (check_refused_ne _ _) fun _ horder => ?_
  rw [check_eq_ok, Bool.and_eq_true] at horder
  refine bind_ne_error (getOr_refused_ne _ _) fun uri _ => ?_
  refine bind_ne_error ?_ fun _ _ => ?_
  · rw [check, if_pos (decide_eq_true (pow_decimals_lt horder.2))]
    rintro ⟨⟩
  · exact bind_ne_error (check_refused_ne _ _) fun _ _ => forM_refused_ne _ _ _

/-! ## What is asked for -/

/-- The amount a URL names is that of the order. -/
theorem amount_of_ok (h : o.validate parse = .ok ()) :
    ∃ uri amount text value, parse o.paymentUri = some uri ∧
      parseU64 o.amountAtomic = some amount ∧ uri.values "amount" = [text] ∧
      Decimal.Canonical text.toList ∧ Decimal.value text.toList = some value ∧
      value * 10 ^ o.decimals = amount := by
  obtain ⟨amount, uri, ⟨htext, -, hlt, -⟩, huri, -, hvalue⟩ := validate_eq_ok.1 h
  have hpow : (10 : ℚ) ^ o.decimals ≠ 0 := by positivity
  refine ⟨uri, amount, _, amount / 10 ^ o.decimals, huri, ?_, hvalue, ?_, ?_,
    div_mul_cancel₀ _ hpow⟩
  · rw [htext]
    exact parseU64_toString hlt
  · rw [toList_decimalText]
    exact Decimal.canonical_render _ _
  · rw [toList_decimalText]
    exact Decimal.value_render _ _

/-- The same URL asks for the same amount. -/
theorem amountAtomic_eq (hdecimals : o.decimals = o'.decimals) (huri : o.paymentUri = o'.paymentUri)
    (h : o.validate parse = .ok ()) (h' : o'.validate parse = .ok ()) :
    o.amountAtomic = o'.amountAtomic := by
  obtain ⟨amount, uri, hcosts, hparse, -, hvalue⟩ := validate_eq_ok.1 h
  obtain ⟨amount', uri', hcosts', hparse', -, hvalue'⟩ := validate_eq_ok.1 h'
  obtain rfl : uri = uri' := by
    rw [← huri, hparse] at hparse'
    exact Option.some.inj hparse'
  rw [hvalue, decimalText_eq, decimalText_eq, hdecimals] at hvalue'
  have hrender := String.ofList_injective (List.cons.inj hvalue').1
  rw [hcosts.1, hcosts'.1, Decimal.render_inj hrender]

/-- There is one text that the URL of an order may name as its amount: the canonical one of the
    value. -/
theorem one_amount (hcosts : o.Costs amount) : ∃! text : String,
    ∀ parse uri, parse o.paymentUri = some uri → o.PaidBy uri →
      (o.validate parse = .ok () ↔ uri.values "amount" = [text]) := by
  have haccepted : ∀ parse uri, parse o.paymentUri = some uri → o.PaidBy uri →
      (o.validate parse = .ok () ↔ uri.values "amount" = [decimalText amount o.decimals]) := by
    intro parse uri huri hpaid
    rw [validate_eq_ok]
    constructor
    · rintro ⟨amount', uri', hcosts', huri', -, hvalue⟩
      obtain rfl := Option.some.inj (huri.symm.trans huri')
      have hsame : amount' = amount := by
        have hnumber := parseU64_toString hcosts'.2.2.1
        rw [← hcosts'.1, hcosts.1, parseU64_toString hcosts.2.2.1] at hnumber
        exact (Option.some.inj hnumber).symm
      rw [hvalue, hsame]
    · exact fun hvalue => ⟨amount, uri, hcosts, huri, hpaid, hvalue⟩
  refine ⟨decimalText amount o.decimals, haccepted, fun text htext => ?_⟩
  -- A URL that names this text and all the fields of the order.
  let uri : PaymentUrl := ⟨"solana", o.recipient, none,
    [("amount", text), ("spl-token", o.mint), ("reference", o.reference)]⟩
  have hpaid : o.PaidBy uri := ⟨rfl, rfl, rfl, rfl, rfl⟩
  have hamount : uri.values "amount" = [text] := rfl
  have hok := (htext (fun _ => some uri) uri rfl hpaid).2 hamount
  have hvalue := (haccepted (fun _ => some uri) uri rfl hpaid).1 hok
  rw [hamount] at hvalue
  exact (List.cons.inj hvalue).1

/-- The amount that a wallet is asked for is that of the order. Where an order passes, its URL names
    one amount, a canonical text whose value in units of the token is the amount of the order, and
    no power of ten is too great. The same URL never asks for two amounts, and for each amount that
    an order may cost there is one text. -/
theorem payment_amount_exact :
    (∀ (parse : String → Option PaymentUrl) (o : PlusOrder), o.validate parse = .ok () →
      ∃ uri amount text value, parse o.paymentUri = some uri ∧
        parseU64 o.amountAtomic = some amount ∧ uri.values "amount" = [text] ∧
        Decimal.Canonical text.toList ∧ Decimal.value text.toList = some value ∧
        value * 10 ^ o.decimals = amount) ∧
    (∀ (parse : String → Option PaymentUrl) (o : PlusOrder),
      o.validate parse ≠ .error .overflow) ∧
    (∀ (parse : String → Option PaymentUrl) (o o' : PlusOrder), o.decimals = o'.decimals →
      o.validate parse = .ok () → o'.validate parse = .ok () → o.amountAtomic ≠ o'.amountAtomic →
      o.paymentUri ≠ o'.paymentUri) ∧
    ∀ (o : PlusOrder) (amount : Nat), o.Costs amount → ∃! text : String,
      ∀ parse uri, parse o.paymentUri = some uri → o.PaidBy uri →
        (o.validate parse = .ok () ↔ uri.values "amount" = [text]) := by
  refine ⟨fun _ _ h => amount_of_ok h, fun _ _ => validate_ne_overflow, ?_,
    fun _ _ hcosts => one_amount hcosts⟩
  intro parse o o' hdecimals h h' hne huri
  exact hne (amountAtomic_eq hdecimals huri h h')

/-- An order of fifty billionths of a token. -/
def devnetOrder : PlusOrder :=
  ⟨"order", "solana-devnet", "mosh-plus-30d", "mint", "wallet", "50", "ref", "uri", none, none⟩

/-- What the url crate reads of it. -/
def devnetUrl : PaymentUrl :=
  ⟨"solana", "wallet", none,
    [("amount", "0.00000005"), ("spl-token", "mint"), ("reference", "ref")]⟩

theorem payment_amount_exact_devnet :
    devnetOrder.validate (fun _ => some devnetUrl) = .ok () ∧
      ∃ value, Decimal.value "0.00000005".toList = some value ∧ value * 10 ^ 9 = 50 := by
  have hcosts : devnetOrder.Costs 50 := by
    refine ⟨by decide +kernel, by decide, by norm_num, by decide, by decide, by decide⟩
  have hok : devnetOrder.validate (fun _ => some devnetUrl) = .ok () :=
    validate_eq_ok.2 ⟨50, devnetUrl, hcosts, rfl, ⟨rfl, rfl, rfl, rfl, rfl⟩, by decide +kernel⟩
  obtain ⟨uri, amount, text, value, huri, hamount, htext, -, hvalue, hunits⟩ :=
    payment_amount_exact.1 _ _ hok
  obtain rfl : devnetUrl = uri := Option.some.inj huri
  obtain rfl : "0.00000005" = text := (List.cons.inj htext).1
  obtain rfl : 50 = amount := by
    have hread := parseU64_toString hcosts.2.2.1
    rw [← hcosts.1] at hread
    exact Option.some.inj (hread.symm.trans hamount)
  exact ⟨hok, value, hvalue, by exact_mod_cast hunits⟩

end Mosh.Plus
