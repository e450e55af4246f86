import Livora.ResponsePasses

/-! Links of the places in IPFS made twice: when a picture is stored, and of the stored link in
every response. A link is cut at the last of its `/ipfs/`, so it depends on the gateway and on what
is named whether making the link of a link leaves it as it is. -/

namespace Livora.GatewayLinks

open ResponsePasses

/-! ### The last part -/

section LastPart

variable {separator t g r c q : List Char}

theorem lastPart_drop (separator : List Char) (skip : ℕ) (t : List Char) :
    lastPart separator skip t = lastPart separator 0 (t.drop skip) := by
  induction t generalizing skip with
  | nil => cases skip <;> rfl
  | cons a t ih =>
    cases skip with
    | zero => rfl
    | succ skip => exact ih skip

theorem lastPart_found (h : separator ≠ []) (q : List Char) :
    lastPart separator 0 (separator ++ q) = (lastPart separator 0 q).or (some q) := by
  obtain ⟨a, rest, rfl⟩ := List.exists_cons_of_ne_nil h
  have hfound : (a :: rest).isPrefixOf (a :: (rest ++ q)) = true :=
    List.isPrefixOf_iff_prefix.mpr ⟨q, rfl⟩
  rw [List.cons_append, lastPart, if_pos hfound, lastPart_drop, ← List.cons_append, List.drop_left,
    List.length_cons, Nat.add_sub_cancel, List.drop_left]

theorem lastPart_other {a : Char} (h : ¬ separator <+: a :: t) :
    lastPart separator 0 (a :: t) = lastPart separator 0 t := by
  rw [lastPart, if_neg fun hsep => h (List.isPrefixOf_iff_prefix.mp hsep)]

theorem split_induct (hne : separator ≠ []) {motive : List Char → Prop} (nil : motive [])
    (found : ∀ q, motive q → motive (separator ++ q))
    (other : ∀ a t, ¬ separator <+: a :: t → motive t → motive (a :: t)) (t : List Char) :
    motive t := by
  induction hn : t.length using Nat.strong_induction_on generalizing t with
  | h n ih =>
    by_cases hsep : separator <+: t
    · obtain ⟨q, rfl⟩ := hsep
      have hpos := List.length_pos_of_ne_nil hne
      rw [List.length_append] at hn
      exact found q (ih q.length (by omega) q rfl)
    · cases t with
      | nil => exact nil
      | cons a t => exact other a t hsep (ih t.length (by simp [← hn]) t rfl)

theorem lastPart_spec (hne : separator ≠ []) (h : lastPart separator 0 t = some q) :
    (∃ p, t = p ++ separator ++ q) ∧ lastPart separator 0 q = none := by
  induction t using split_induct hne with
  | nil => exact absurd h (by simp [lastPart])
  | found u ih =>
    rw [lastPart_found hne] at h
    cases hu : lastPart separator 0 u with
    | none =>
      obtain rfl : u = q := by simpa [hu] using h
      exact ⟨⟨[], rfl⟩, hu⟩
    | some v =>
      obtain rfl : v = q := by simpa [hu] using h
      obtain ⟨⟨p, hp⟩, hnone⟩ := ih hu
      exact ⟨⟨separator ++ p, by rw [hp, List.append_assoc, List.append_assoc, List.append_assoc]⟩,
        hnone⟩
  | other a t hsep ih =>
    rw [lastPart_other hsep] at h
    obtain ⟨⟨p, rfl⟩, hnone⟩ := ih h
    exact ⟨⟨a :: p, rfl⟩, hnone⟩

theorem lastPart_eq_none (hne : separator ≠ []) :
    lastPart separator 0 t = none ↔ ¬ separator <:+: t := by
  induction t using split_induct hne with
  | nil =>
    simp [lastPart, hne]
  | found q _ =>
    rw [lastPart_found hne]
    simp [(List.prefix_append separator q).isInfix]
  | other a t hsep ih =>
    rw [lastPart_other hsep, ih, List.infix_cons_iff, not_or]
    exact ⟨fun h => ⟨hsep, h⟩, And.right⟩

theorem lastPart_append (hne : separator ≠ []) (c : List Char)
    (h : lastPart separator 0 g = some r) :
    lastPart separator 0 (g ++ c) = (lastPart separator 0 (r ++ c)).or (some (r ++ c)) := by
  induction g using split_induct hne with
  | nil => exact absurd h (by simp [lastPart])
  | found u ih =>
    rw [lastPart_found hne] at h
    rw [List.append_assoc, lastPart_found hne]
    cases hu : lastPart separator 0 u with
    | none =>
      obtain rfl : u = r := by simpa [hu] using h
      rfl
    | some v =>
      obtain rfl : v = r := by simpa [hu] using h
      rw [ih hu, Option.or_assoc]
      rfl
  | other a g hsep ih =>
    rw [lastPart_other hsep] at h
    obtain ⟨⟨p, hp⟩, -⟩ := lastPart_spec hne h
    have hlong : separator.length ≤ (a :: g).length := by
      rw [hp]
      simp only [List.length_cons, List.length_append]
      omega
    have hsep' : ¬ separator <+: a :: (g ++ c) := fun hlarge =>
      hsep (List.prefix_of_prefix_length_le hlarge (List.prefix_append (a :: g) c) hlong)
    rw [List.cons_append, lastPart_other hsep', ih h]

theorem lastPart_append_ne (hne : separator ≠ []) (h : lastPart separator 0 g = some r)
    (hr : r ≠ []) :
    lastPart separator 0 (g ++ c) ≠ some c := by
  intro hc
  rw [lastPart_append hne c h] at hc
  obtain ⟨-, hnone⟩ := lastPart_spec hne h
  cases hlast : lastPart separator 0 (r ++ c) with
  | none =>
    rw [hlast, Option.none_or, Option.some.injEq] at hc
    exact hr (List.append_left_eq_self.mp hc)
  | some q =>
    obtain rfl : q = c := by simpa [hlast] using hc
    obtain ⟨⟨p, hp⟩, -⟩ := lastPart_spec hne hlast
    exact (lastPart_eq_none hne).mp hnone
      ⟨p, [], by rw [List.append_nil, List.append_cancel_right hp]⟩

theorem lastPart_ne_self (hne : separator ≠ []) : lastPart separator 0 t ≠ some t := by
  intro h
  obtain ⟨⟨p, hp⟩, -⟩ := lastPart_spec hne h
  have hlength := congrArg List.length hp
  have hpos := List.length_pos_of_ne_nil hne
  simp only [List.length_append] at hlength
  omega

end LastPart

/-! ### Gateways -/

section Links

variable (configured : String)

/-- `IpfsService.getGatewayUrl` -/
def getGatewayUrl (cidOrPath : List Char) : List Char :=
  if cidOrPath = [] then []
  else
    let cleanGateway := gatewayOf configured
    if isUrl cidOrPath then
      match lastPart ipfsPath 0 cidOrPath with
      | some cid => cleanGateway ++ cid
      | none => cidOrPath
    else
      let cleanCid :=
        if ipfsScheme.isPrefixOf cidOrPath then cidOrPath.drop ipfsScheme.length else cidOrPath
      cleanGateway ++ if "ipfs/".toList.isPrefixOf cleanCid then cleanCid.drop 5 else cleanCid

theorem formatIpfsUrl_eq (value : List Char) :
    formatIpfsUrl (gatewayOf configured) value = getGatewayUrl configured value := by
  unfold formatIpfsUrl getGatewayUrl
  split
  · rename_i hempty
    exact hempty
  · rfl

end Links

/-- The place in IPFS that a text names: of a link what is behind its last `/ipfs/`, of another text
what is behind `ipfs://` and `ipfs/`. -/
def named (value : List Char) : List Char :=
  if isUrl value then (lastPart ipfsPath 0 value).getD value
  else
    let cleaned := if ipfsScheme.isPrefixOf value then value.drop ipfsScheme.length else value
    if "ipfs/".toList.isPrefixOf cleaned then cleaned.drop 5 else cleaned

/-- Nothing to make a link of: no text, or a link of another kind. -/
def Foreign (value : List Char) : Prop := value = [] ∨ isUrl value = true ∧ ¬ ipfsPath <:+: value

/-- The gateway ends with its last `/ipfs/` and the place has no other, or neither has one, the
slash between them included. -/
def Clean (gateway place : List Char) : Prop :=
  lastPart ipfsPath 0 gateway = some [] ∧ ¬ ipfsPath <:+: place ∨
    ¬ ipfsPath <:+: gateway ∧ ¬ ipfsPath <:+: '/' :: place

variable {configured : String} {value c g : List Char}

theorem ipfsPath_ne_nil : ipfsPath ≠ [] := List.cons_ne_nil _ _

theorem getGatewayUrl_foreign (h : Foreign value) : getGatewayUrl configured value = value := by
  unfold getGatewayUrl
  rcases h with rfl | ⟨hurl, hpath⟩
  · rfl
  · split
    · rename_i hempty
      exact hempty.symm
    · simp only [(lastPart_eq_none ipfsPath_ne_nil).mpr hpath]

theorem getGatewayUrl_named (h : ¬ Foreign value) :
    getGatewayUrl configured value = gatewayOf configured ++ named value := by
  rw [Foreign, not_or, not_and, not_not] at h
  unfold getGatewayUrl named
  rw [if_neg h.1]
  by_cases hurl : isUrl value = true
  · rw [if_pos hurl, if_pos hurl]
    cases hlast : lastPart ipfsPath 0 value with
    | none => exact absurd (h.2 hurl) ((lastPart_eq_none ipfsPath_ne_nil).mp hlast)
    | some cid => rfl
  · rw [if_neg hurl, if_neg hurl]

theorem isPrefixOf_append {p : List Char} (h : p.isPrefixOf g = true) (c : List Char) :
    p.isPrefixOf (g ++ c) = true :=
  List.isPrefixOf_iff_prefix.mpr ((List.isPrefixOf_iff_prefix.mp h).trans (List.prefix_append g c))

theorem isUrl_append (h : isUrl g = true) (c : List Char) : isUrl (g ++ c) = true := by
  rw [isUrl, Bool.or_eq_true] at h ⊢
  exact h.imp (isPrefixOf_append · c) (isPrefixOf_append · c)

theorem ends_with_slash (configured : String) : ∃ p, gatewayOf configured = p ++ ['/'] := by
  unfold gatewayOf
  extract_lets gateway
  split
  · rename_i h
    obtain ⟨p, hp⟩ := List.isSuffixOf_iff_suffix.mp h
    exact ⟨p, hp.symm⟩
  · exact ⟨_, rfl⟩

theorem not_isPrefix_of_straddling {a : Char} {p : List Char}
    (h : ¬ ipfsPath <:+: a :: (p ++ ['/'])) :
    ¬ ipfsPath <+: a :: (p ++ '/' :: c) := by
  intro hlarge
  rcases p with _ | ⟨p1, _ | ⟨p2, _ | ⟨p3, _ | ⟨p4, p⟩⟩⟩⟩
  all_goals simp only [ipfsPath, List.nil_append, List.cons_append, List.cons_prefix_cons] at hlarge
  · exact absurd hlarge.2.1 (by decide)
  · exact absurd hlarge.2.2.1 (by decide)
  · exact absurd hlarge.2.2.2.1 (by decide)
  · exact absurd hlarge.2.2.2.2.1 (by decide)
  · obtain ⟨rfl, rfl, rfl, rfl, rfl, hslash⟩ := hlarge
    have hsmall : ['/'] <+: p ++ ['/'] :=
      List.prefix_of_prefix_length_le hslash ⟨c, by simp⟩ (by simp)
    refine h (List.IsPrefix.isInfix ?_)
    simpa [ipfsPath] using hsmall

theorem lastPart_gateway_none {p : List Char} (hg : ¬ ipfsPath <:+: p ++ ['/']) (c : List Char) :
    lastPart ipfsPath 0 (p ++ '/' :: c) = lastPart ipfsPath 0 ('/' :: c) := by
  induction p with
  | nil => rfl
  | cons a p ih =>
    rw [List.cons_append, lastPart_other (not_isPrefix_of_straddling hg)]
    exact ih fun h => hg (h.trans (List.suffix_cons a _).isInfix)

theorem lastPart_link_iff (configured : String) (c : List Char) :
    ((lastPart ipfsPath 0 (gatewayOf configured ++ c) = none ∨
      lastPart ipfsPath 0 (gatewayOf configured ++ c) = some c)) ↔
        Clean (gatewayOf configured) c := by
  obtain ⟨p, hp⟩ := ends_with_slash configured
  cases hlast : lastPart ipfsPath 0 (gatewayOf configured) with
  | none =>
    have hgateway := (lastPart_eq_none ipfsPath_ne_nil).mp hlast
    have hlink : lastPart ipfsPath 0 (gatewayOf configured ++ c) =
        lastPart ipfsPath 0 ('/' :: c) := by
      rw [hp, List.append_assoc]
      exact lastPart_gateway_none (hp ▸ hgateway) c
    have hne : lastPart ipfsPath 0 ('/' :: c) ≠ some c := by
      intro hself
      obtain ⟨⟨q, hq⟩, -⟩ := lastPart_spec ipfsPath_ne_nil hself
      have hlength := congrArg List.length hq
      simp only [List.length_append, List.length_cons, ipfsPath] at hlength
      omega
    rw [hlink, Clean, hlast, or_iff_left hne, lastPart_eq_none ipfsPath_ne_nil]
    simp [hgateway]
  | some r =>
    have hgateway : ipfsPath <:+: gatewayOf configured := by
      by_contra hnone
      rw [(lastPart_eq_none ipfsPath_ne_nil).mpr hnone] at hlast
      exact absurd hlast (by simp)
    have hsome : lastPart ipfsPath 0 (gatewayOf configured ++ c) ≠ none := by
      rw [lastPart_append ipfsPath_ne_nil c hlast]
      simp
    rw [or_iff_right hsome, Clean, hlast, Option.some.injEq]
    by_cases hr : r = []
    · subst hr
      rw [lastPart_append ipfsPath_ne_nil c hlast, List.nil_append,
        ← lastPart_eq_none ipfsPath_ne_nil (t := c)]
      cases hc : lastPart ipfsPath 0 c with
      | none => simp
      | some q =>
        have hq : q ≠ c := fun h => lastPart_ne_self ipfsPath_ne_nil (h ▸ hc)
        simp [hq, hgateway]
    · simp [lastPart_append_ne ipfsPath_ne_nil hlast hr, hr, hgateway]

/-- With an http gateway a link made of `value` is left as it is, and is the link that the responses
show, exactly for nothing, for a foreign link and for a place that is clean behind the gateway. -/
theorem link_stays_iff (hgateway : isUrl (gatewayOf configured) = true) (value : List Char) :
    (getGatewayUrl configured (getGatewayUrl configured value) = getGatewayUrl configured value ∧
      formatIpfsUrl (gatewayOf configured) value = getGatewayUrl configured value) ↔
      Foreign value ∨ Clean (gatewayOf configured) (named value) := by
  rw [and_iff_left (formatIpfsUrl_eq configured value)]
  by_cases hforeign : Foreign value
  · simp [getGatewayUrl_foreign, hforeign]
  rw [or_iff_right hforeign, getGatewayUrl_named hforeign, ← lastPart_link_iff]
  have hurl := isUrl_append hgateway (named value)
  by_cases hlast : lastPart ipfsPath 0 (gatewayOf configured ++ named value) = none
  · have hkept : getGatewayUrl configured (gatewayOf configured ++ named value) =
        gatewayOf configured ++ named value :=
      getGatewayUrl_foreign (Or.inr ⟨hurl, (lastPart_eq_none ipfsPath_ne_nil).mp hlast⟩)
    simp [hkept, hlast]
  · obtain ⟨cid, hcid⟩ := Option.ne_none_iff_exists'.mp hlast
    have hlinked : ¬ Foreign (gatewayOf configured ++ named value) := by
      rintro (hempty | ⟨-, hnone⟩)
      · simp [hempty, isUrl] at hurl
      · exact hlast ((lastPart_eq_none ipfsPath_ne_nil).mpr hnone)
    have hnamed : named (gatewayOf configured ++ named value) = cid := by
      rw [named, if_pos hurl, hcid, Option.getD_some]
    rw [getGatewayUrl_named hlinked, hnamed, or_iff_right hlast, hcid, Option.some.injEq,
      List.append_cancel_left_eq]

theorem link_stays_iff_laboratory :
    (getGatewayUrl "" (getGatewayUrl "" "ipfs://QmA".toList) =
      getGatewayUrl "" "ipfs://QmA".toList ∧
      formatIpfsUrl (gatewayOf "") "ipfs://QmA".toList = getGatewayUrl "" "ipfs://QmA".toList) ↔
      Foreign "ipfs://QmA".toList ∨ Clean (gatewayOf "") (named "ipfs://QmA".toList) :=
  link_stays_iff (by decide) "ipfs://QmA".toList

/-- A place inside a folder of the name `ipfs`. -/
def inFolder : List Char := "ipfs://QmA/ipfs/b".toList

/-- The folder is lost when the stored link is made a link again. -/
theorem folder_lost :
    getGatewayUrl "" inFolder = "https://grupolivoralabs.com/ipfs/QmA/ipfs/b".toList ∧
      formatIpfsUrl (gatewayOf "")
      (getGatewayUrl "" inFolder) = "https://grupolivoralabs.com/ipfs/b".toList ∧
      getGatewayUrl "" (getGatewayUrl "" inFolder) ≠ getGatewayUrl "" inFolder := by
  decide

end Livora.GatewayLinks
