/-
# Webpki.Error — the error taxonomy of `error.rs` and its specificity ranking.

`Error` is the closed enumeration every validation step fails with. `Error.rank` scores how
useful an error is to an end user, and `Error.mostSpecific` keeps the higher-ranked of two
errors: the path builder folds it over the failures of all candidate chains, so the error a
caller sees is the most informative one observed.

What is proved here is what that fold does, over every list of branch failures: it reports an
error it observed, of maximal rank, and the first such. On a tie `mostSpecific` keeps its
receiver, so the order in which the branches are explored decides between equally ranked errors,
though never the rank of the one reported.
-/
import Mathlib.Order.Basic
import Mathlib.Data.List.Basic

namespace Webpki

/-! ## The taxonomy -/

/-- The DER type whose value had trailing data (`DerTypeId`). -/
inductive DerTypeId where
  | bitString | bool | certificate | certificateExtensions | certificateTbsCertificate
  | certRevocationList | certRevocationListExtension | crlDistributionPoint | commonNameInner
  | commonNameOuter | distributionPointName | extension | generalName | revocationReason
  | signature | signatureAlgorithm | signedData | subjectPublicKeyInfo | time | trustAnchorV1
  | trustAnchorV1TbsCertificate | u8 | revokedCertificate | revokedCertificateExtension
  | revokedCertEntry | issuingDistributionPoint
  deriving DecidableEq, Repr

/-- An error that occurs during certificate validation or name validation (`Error`). -/
inductive Error where
  | badDer
  | badDerTime
  | caUsedAsEndEntity
  | certExpired
  | certNotValidForName
  | certNotValidYet
  | certRevoked
  | endEntityUsedAsCa
  | extensionValueInvalid
  | invalidCertValidity
  | invalidCrlNumber
  | invalidNetworkMaskConstraint
  | invalidSerialNumber
  | invalidCrlSignatureForPublicKey
  | invalidSignatureForPublicKey
  | issuerNotCrlSigner
  | malformedDnsIdentifier
  | malformedExtensions
  | malformedNameConstraint
  | maximumSignatureChecksExceeded
  | nameConstraintViolation
  | pathLenConstraintViolated
  | requiredEkuNotFound
  | signatureAlgorithmMismatch
  | trailingData (id : DerTypeId)
  | unknownIssuer
  | unknownRevocationStatus
  | unsupportedCertVersion
  | unsupportedCriticalExtension
  | unsupportedCrlIssuingDistributionPoint
  | unsupportedCrlVersion
  | unsupportedDeltaCrl
  | unsupportedIndirectCrl
  | unsupportedRevocationReason
  | unsupportedRevocationReasonsPartitioning
  | unsupportedCrlSignatureAlgorithm
  | unsupportedSignatureAlgorithm
  | unsupportedCrlSignatureAlgorithmForPublicKey
  | unsupportedSignatureAlgorithmForPublicKey
  deriving DecidableEq, Repr

namespace Error

/-- How specific an error is: a higher rank is more useful to an end user (`Error::rank`). -/
def rank : Error → Nat
  | certNotValidYet | certExpired => 29
  | certNotValidForName => 28
  | certRevoked | unknownRevocationStatus => 27
  | invalidCrlSignatureForPublicKey | invalidSignatureForPublicKey => 26
  | signatureAlgorithmMismatch => 25
  | requiredEkuNotFound => 24
  | nameConstraintViolation => 23
  | pathLenConstraintViolated => 22
  | caUsedAsEndEntity | endEntityUsedAsCa => 21
  | issuerNotCrlSigner => 20
  | invalidCertValidity => 19
  | invalidNetworkMaskConstraint => 18
  | invalidSerialNumber => 17
  | invalidCrlNumber => 16
  | unsupportedCrlSignatureAlgorithmForPublicKey
  | unsupportedSignatureAlgorithmForPublicKey => 15
  | unsupportedCrlSignatureAlgorithm | unsupportedSignatureAlgorithm => 14
  | unsupportedCriticalExtension => 13
  | unsupportedCertVersion => 13
  | unsupportedCrlVersion => 12
  | unsupportedDeltaCrl => 11
  | unsupportedIndirectCrl => 10
  | unsupportedRevocationReason => 9
  | unsupportedRevocationReasonsPartitioning => 8
  | unsupportedCrlIssuingDistributionPoint => 7
  | malformedDnsIdentifier => 6
  | malformedNameConstraint => 5
  | malformedExtensions | trailingData _ => 4
  | extensionValueInvalid => 3
  | badDerTime => 2
  | badDer => 1
  | maximumSignatureChecksExceeded => 0
  | unknownIssuer => 0

/-- The higher-ranked of `self` and `new`; `self` on a tie (`Error::most_specific`). -/
def mostSpecific (self new : Error) : Error :=
  if self.rank ≥ new.rank then self else new

/-! ## `mostSpecific` is a left-biased maximum -/

theorem mostSpecific_of_rank_le {a b : Error} (h : b.rank ≤ a.rank) : a.mostSpecific b = a :=
  if_pos h

theorem mostSpecific_of_rank_lt {a b : Error} (h : a.rank < b.rank) : a.mostSpecific b = b :=
  if_neg (Nat.not_le.mpr h)

theorem mostSpecific_eq_or (a b : Error) : a.mostSpecific b = a ∨ a.mostSpecific b = b := by
  unfold mostSpecific; split_ifs <;> simp

theorem rank_le_mostSpecific (a b : Error) :
    a.rank ≤ (a.mostSpecific b).rank ∧ b.rank ≤ (a.mostSpecific b).rank := by
  rcases Nat.lt_or_ge a.rank b.rank with h | h
  · rw [mostSpecific_of_rank_lt h]; omega
  · rw [mostSpecific_of_rank_le h]; omega

/-! ## Folding over the candidate branches -/

theorem foldl_mostSpecific_mem (e : Error) (es : List Error) : es.foldl mostSpecific e ∈ e :: es := by
  induction es generalizing e with
  | nil => exact List.mem_singleton_self e
  | cons x xs ih =>
    have h := ih (e.mostSpecific x)
    rw [List.foldl_cons]
    rcases mostSpecific_eq_or e x with hx | hx <;> rw [hx] at h ⊢ <;>
      simp only [List.mem_cons] at h ⊢ <;> tauto

theorem rank_le_foldl_mostSpecific (e : Error) (es : List Error) :
    ∀ x ∈ e :: es, x.rank ≤ (es.foldl mostSpecific e).rank := by
  induction es generalizing e with
  | nil => simp
  | cons x xs ih =>
    have hr := ih (e.mostSpecific x) _ (List.mem_cons_self _ _)
    have := rank_le_mostSpecific e x
    intro y hy
    rw [List.foldl_cons]
    rcases List.mem_cons.mp hy with rfl | hy
    · omega
    rcases List.mem_cons.mp hy with rfl | hy
    · omega
    · exact ih _ y (List.mem_cons_of_mem _ hy)

/-- **The error the search reports is one it observed, of maximal rank**: folding
`most_specific` over the failures of every branch returns a member of maximal rank. -/
theorem foldl_mostSpecific_max (e : Error) (es : List Error) :
    es.foldl mostSpecific e ∈ e :: es ∧ ∀ x ∈ e :: es, x.rank ≤ (es.foldl mostSpecific e).rank :=
  ⟨foldl_mostSpecific_mem e es, rank_le_foldl_mostSpecific e es⟩

/-- **The error reported is the first one observed of maximal rank**: the fold splits the observed
errors at its result, every error before it of strictly lower rank, none after it of higher. -/
theorem foldl_mostSpecific_first_max (e : Error) (es : List Error) :
    ∃ pre post, e :: es = pre ++ es.foldl mostSpecific e :: post ∧
      (∀ x ∈ pre, x.rank < (es.foldl mostSpecific e).rank) ∧
      ∀ x ∈ post, x.rank ≤ (es.foldl mostSpecific e).rank := by
  induction es generalizing e with
  | nil => exact ⟨[], [], rfl, by simp, by simp⟩
  | cons x xs ih =>
    obtain ⟨pre, post, hsplit, hpre, hpost⟩ := ih (e.mostSpecific x)
    rw [List.foldl_cons]
    rcases Nat.lt_or_ge e.rank x.rank with hex | hex
    · -- `x` displaces `e`, which joins the errors before the result
      rw [mostSpecific_of_rank_lt hex] at hsplit hpre hpost ⊢
      have hx := rank_le_foldl_mostSpecific x xs x (List.mem_cons_self _ _)
      refine ⟨e :: pre, post, by rw [hsplit]; rfl, fun y hy => ?_, hpost⟩
      rcases List.mem_cons.mp hy with rfl | hy
      · omega
      · exact hpre y hy
    · rw [mostSpecific_of_rank_le hex] at hsplit hpre hpost ⊢
      cases pre with
      | nil =>
        -- the result is `e` itself, and `x` joins the errors after it
        obtain ⟨he, rfl⟩ := List.cons.inj hsplit
        refine ⟨[], x :: xs, by rw [← he]; rfl, by simp, fun y hy => ?_⟩
        rcases List.mem_cons.mp hy with rfl | hy
        · exact he ▸ hex
        · exact hpost y hy
      | cons p pre =>
        -- `e` heads the errors before the result, `x`, ranked no higher, follows it
        obtain ⟨rfl, hxs⟩ := List.cons.inj hsplit
        have he := hpre e (List.mem_cons_self _ _)
        refine ⟨e :: x :: pre, post, congrArg (fun l => e :: x :: l) hxs, fun y hy => ?_, hpost⟩
        rcases List.mem_cons.mp hy with rfl | hy
        · exact he
        rcases List.mem_cons.mp hy with rfl | hy
        · omega
        · exact hpre y (List.mem_cons_of_mem _ hy)

/-- **The order the branches are explored in never changes the rank of the reported error**; on a
tie it only decides which of the equally ranked errors is reported. -/
theorem rank_foldl_mostSpecific_perm (e : Error) {es es' : List Error} (h : es.Perm es') :
    (es.foldl mostSpecific e).rank = (es'.foldl mostSpecific e).rank :=
  Nat.le_antisymm
    (rank_le_foldl_mostSpecific e es' _ ((h.cons e).subset (foldl_mostSpecific_mem e es)))
    (rank_le_foldl_mostSpecific e es _ ((h.cons e).symm.subset (foldl_mostSpecific_mem e es')))

theorem rank_foldl_mostSpecific_perm_tie :
    [certNotValidYet, certExpired].Perm [certExpired, certNotValidYet] ∧
      ([certNotValidYet, certExpired].foldl mostSpecific unknownIssuer).rank =
        ([certExpired, certNotValidYet].foldl mostSpecific unknownIssuer).rank :=
  ⟨.swap _ _ _, rank_foldl_mostSpecific_perm unknownIssuer (.swap _ _ _)⟩

end Error

end Webpki
