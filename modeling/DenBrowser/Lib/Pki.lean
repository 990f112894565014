import Mathlib.Data.List.Basic
import Mathlib.Tactic.TypeStar
import Mathlib.Tactic.Common

/-!
# Certificates and trust paths

A certificate is taken with what path validation reads of it: the two names, the public key if it
decodes, and the key its signature verifies under.  A trust store accepts what chains to one of
its anchors, over certificates that need not be trusted themselves.

* `sameAuthority_iff` — two certificates can issue one certificate in common iff they carry one
  name and one key;
* `chainsWithin_sound` — what a search of bounded depth accepts, chains;
* `Chains.exists_issuer` — when only roots are anchors, whatever chains has an issuer that chains;
* `apart_iff` — two stores accept no certificate in common iff their issuers are kept apart.
-/

set_option autoImplicit false

namespace Pki

variable {Name Key : Type*}

/-- A certificate, as far as path validation reads it. -/
structure Certificate (Name Key : Type*) where
  subject : Name
  issuer : Name
  /-- The subject's public key, if it decodes. -/
  key : Option Key
  /-- The key the signature verifies under. -/
  signer : Key
  deriving DecidableEq

/-- `p` issued `c`: the name it gives and the signature it bears. -/
def Issues (p c : Certificate Name Key) : Prop := c.issuer = p.subject ∧ p.key = some c.signer

/-- The certificate of a root. -/
def SelfSigned (c : Certificate Name Key) : Prop := Issues c c

/-- One name and one key, under two certificates. -/
def SameAuthority (p q : Certificate Name Key) : Prop :=
  p.subject = q.subject ∧ ∃ k, p.key = some k ∧ q.key = some k

/-- **What one issuer signs, the other has signed as well** exactly when they are one
authority. -/
theorem sameAuthority_iff {p q : Certificate Name Key} :
    SameAuthority p q ↔ ∃ c, Issues p c ∧ Issues q c := by
  constructor
  · rintro ⟨hsubject, k, hp, hq⟩
    exact ⟨⟨p.subject, p.subject, p.key, k⟩, ⟨rfl, hp⟩, hsubject, hq⟩
  · rintro ⟨c, ⟨hpname, hpkey⟩, hqname, hqkey⟩
    exact ⟨hpname.symm.trans hqname, c.signer, hpkey, hqkey⟩

/-- A set of trusted certificates; of which all are anchors, or only the roots. -/
structure TrustStore (Name Key : Type*) where
  certs : List (Certificate Name Key)
  partialChain : Bool

def TrustStore.Anchor (s : TrustStore Name Key) (c : Certificate Name Key) : Prop :=
  c ∈ s.certs ∧ (s.partialChain = true ∨ SelfSigned c)

/-- The certificate chains to an anchor of the store, over the certificates `u` and the store's
own. -/
inductive Chains (s : TrustStore Name Key) (u : List (Certificate Name Key)) :
    Certificate Name Key → Prop
  | anchor {c} : s.Anchor c → Chains s u c
  | issued {p c} : p ∈ u ++ s.certs → Issues p c → Chains s u p → Chains s u c

variable {s t : TrustStore Name Key} {u v : List (Certificate Name Key)}
  {c : Certificate Name Key}

section Search

variable [DecidableEq Name] [DecidableEq Key]

instance (p c : Certificate Name Key) : Decidable (Issues p c) :=
  inferInstanceAs (Decidable (_ ∧ _))

instance (c : Certificate Name Key) : Decidable (SelfSigned c) :=
  inferInstanceAs (Decidable (Issues c c))

instance (s : TrustStore Name Key) (c : Certificate Name Key) : Decidable (s.Anchor c) :=
  inferInstanceAs (Decidable (_ ∧ _))

/-- The search for a path of at most `depth` issuers. -/
def chainsWithin (s : TrustStore Name Key) (u : List (Certificate Name Key)) :
    Nat → Certificate Name Key → Bool
  | 0, c => decide (s.Anchor c)
  | depth + 1, c =>
    decide (s.Anchor c) ||
      (u ++ s.certs).any fun p => decide (Issues p c) && chainsWithin s u depth p

theorem chainsWithin_sound {depth : Nat} (h : chainsWithin s u depth c = true) :
    Chains s u c := by
  induction depth generalizing c with
  | zero => exact .anchor (of_decide_eq_true h)
  | succ depth ih =>
    obtain h | h := Bool.or_eq_true_iff.1 h
    · exact .anchor (of_decide_eq_true h)
    · obtain ⟨p, hp, h⟩ := List.any_eq_true.1 h
      obtain ⟨hissues, hchains⟩ := Bool.and_eq_true_iff.1 h
      exact .issued hp (of_decide_eq_true hissues) (ih hchains)

end Search

/-- When only roots are anchors, an anchor is its own issuer. -/
theorem Chains.exists_issuer (hs : s.partialChain = false) (h : Chains s u c) :
    ∃ q ∈ u ++ s.certs, Issues q c ∧ Chains s u q := by
  cases h with
  | anchor hanchor =>
    obtain ⟨hmem, hpartial | hself⟩ := hanchor
    · rw [hs] at hpartial
      cases hpartial
    · exact ⟨c, List.mem_append_right _ hmem, hself, .anchor ⟨hmem, .inr hself⟩⟩
  | issued hmem hissues hchains => exact ⟨_, hmem, hissues, hchains⟩

/-- Whatever chains is a member of the store or has an issuer that chains. -/
theorem Chains.mem_or_issuer (h : Chains s u c) :
    c ∈ s.certs ∨ ∃ p ∈ u ++ s.certs, Issues p c ∧ Chains s u p := by
  cases h with
  | anchor hanchor => exact .inl hanchor.1
  | issued hmem hissues hchains => exact .inr ⟨_, hmem, hissues, hchains⟩

/-- No certificate chains to both stores. -/
def Apart (s : TrustStore Name Key) (u : List (Certificate Name Key)) (t : TrustStore Name Key)
    (v : List (Certificate Name Key)) : Prop :=
  ∀ c, ¬(Chains s u c ∧ Chains t v c)

/-- **Two stores are apart** iff no issuer that the second accepts is accepted by the first, under
its own certificate or under another one of the same authority. -/
theorem apart_iff (hs : s.partialChain = false) :
    Apart s u t v ↔ ∀ p ∈ v ++ t.certs, Chains t v p →
      ¬Chains s u p ∧ ∀ q ∈ u ++ s.certs, SameAuthority q p → ¬Chains s u q := by
  constructor
  · intro hapart p hmem hp
    refine ⟨fun hsp => hapart p ⟨hsp, hp⟩, fun q hq hsame hsq => ?_⟩
    -- what the two issue in common chains to both stores
    obtain ⟨c, hqc, hpc⟩ := sameAuthority_iff.1 hsame
    exact hapart c ⟨.issued hq hqc hsq, .issued hmem hpc hp⟩
  · rintro hissuers c ⟨hsc, htc⟩
    obtain hmem | ⟨p, hp, hpc, htp⟩ := htc.mem_or_issuer
    · exact (hissuers c (List.mem_append_right _ hmem) htc).1 hsc
    · obtain ⟨q, hq, hqc, hsq⟩ := hsc.exists_issuer hs
      exact (hissuers p hp htp).2 q hq (sameAuthority_iff.2 ⟨c, hqc, hpc⟩) hsq

end Pki
