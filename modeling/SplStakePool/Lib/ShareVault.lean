import Mathlib.Algebra.Order.Floor.Div
import Mathlib.Logic.Relation
import Mathlib.Tactic.Ring
import Mathlib.Tactic.Linarith

/-!
# Pro-rata share vaults

A vault holds `total` assets against `supply` shares. Assets enter for newly issued shares, leave
against redeemed shares, and a gain accrues with some shares issued as a fee. Each move may round,
but only to the vault's advantage; the hypotheses of the moves are exactly that, cross-multiplied.

* `Move.priceLe`: no move lowers the price of a share.
* `Move.backed`: a vault with at least one asset a share keeps that.
* `PriceLe.of_moves`, `PriceLe.worth_le`: over any number of moves shares that are kept do not lose value.
* `Position.no_extraction`: one holder's moves, in any number and order, never pay out more than was
  paid in plus the initial value of the holding.
* `Redeem.parts_le`, `Issue.parts_le`: parts with a charge on each are never better than the whole.
-/

namespace ShareVault

structure Vault where
  total : Nat
  supply : Nat
deriving DecidableEq, Repr

/-- The price of a share of `v'` is at least that of `v`, cross-multiplied. -/
def PriceLe (v v' : Vault) : Prop := v.total * v'.supply ≤ v'.total * v.supply

/-- At least one asset stands behind every share. -/
def Backed (v : Vault) : Prop := v.supply ≤ v.total

/-- The moves of a vault that is not empty. -/
inductive Move (v : Vault) : Vault → Prop
  | enter {assets shares : Nat} (h : shares * v.total ≤ assets * v.supply) :
      Move v ⟨v.total + assets, v.supply + shares⟩
  | leave {assets shares : Nat} (h : assets * v.supply ≤ shares * v.total)
      (ha : assets ≤ v.total) (hs : shares ≤ v.supply) :
      Move v ⟨v.total - assets, v.supply - shares⟩
  /-- A gain of which `fee` is converted to `shares` at the price net of the fee; `supply` shares
  are left, some may have been destroyed outside. -/
  | gain {gain fee supply shares : Nat} (hf : fee ≤ gain) (hS : supply ≤ v.supply)
      (h : shares * (v.total + gain - fee) ≤ v.supply * fee) :
      Move v ⟨v.total + gain, supply + shares⟩

theorem PriceLe.refl (v : Vault) : PriceLe v v := Nat.le_refl _

theorem PriceLe.trans {u v w : Vault} (h₁ : PriceLe u v) (h₂ : PriceLe v w) (hv : 0 < v.supply) :
    PriceLe u w := by
  refine Nat.le_of_mul_le_mul_right ?_ hv
  calc u.total * w.supply * v.supply = u.total * v.supply * w.supply := by ring
    _ ≤ v.total * u.supply * w.supply := Nat.mul_le_mul_right _ h₁
    _ = v.total * w.supply * u.supply := by ring
    _ ≤ w.total * v.supply * u.supply := Nat.mul_le_mul_right _ h₂
    _ = w.total * u.supply * v.supply := by ring

/-- Shares issued at the price net of the fee are no more than the gain adds in proportion. -/
theorem gain_shares_le {T S gain fee shares : Nat} (hT : 0 < T) (hf : fee ≤ gain)
    (h : shares * (T + gain - fee) ≤ S * fee) : T * shares ≤ S * gain := by
  have hle : T * (S * fee) ≤ (T + gain - fee) * (S * gain) := by
    calc T * (S * fee) ≤ (T + gain - fee) * (S * fee) := Nat.mul_le_mul_right _ (by omega)
      _ ≤ (T + gain - fee) * (S * gain) := Nat.mul_le_mul_left _ (Nat.mul_le_mul_left _ hf)
  refine Nat.le_of_mul_le_mul_left ?_ (show 0 < T + gain - fee by omega)
  calc (T + gain - fee) * (T * shares) = T * (shares * (T + gain - fee)) := by ring
    _ ≤ T * (S * fee) := Nat.mul_le_mul_left _ h
    _ ≤ (T + gain - fee) * (S * gain) := hle

/-- No move lowers the price of a share. -/
theorem Move.priceLe {v v' : Vault} (hT : 0 < v.total) (h : Move v v') : PriceLe v v' := by
  cases h with
  | enter h => simp only [PriceLe]; linarith [Nat.mul_comm v.total v.supply]
  | @leave assets shares h ha hs =>
    simp only [PriceLe, Nat.mul_sub, Nat.sub_mul]
    have : v.total * shares = shares * v.total := Nat.mul_comm _ _
    omega
  | @gain gain fee supply shares hf hS h =>
    simp only [PriceLe]
    have h₁ := gain_shares_le hT hf h
    have h₂ := Nat.mul_le_mul_left v.total hS
    calc v.total * (supply + shares) = v.total * supply + v.total * shares := by ring
      _ ≤ v.total * v.supply + v.supply * gain := by omega
      _ = (v.total + gain) * v.supply := by ring

theorem Backed.of_priceLe {v v' : Vault} (hb : Backed v) (hs : 0 < v.supply) (h : PriceLe v v') :
    Backed v' := by
  refine Nat.le_of_mul_le_mul_right ?_ hs
  calc v'.supply * v.supply ≤ v'.supply * v.total := Nat.mul_le_mul_left _ hb
    _ = v.total * v'.supply := Nat.mul_comm _ _
    _ ≤ v'.total * v.supply := h

theorem Move.backed {v v' : Vault} (hs : 0 < v.supply) (hb : Backed v) (h : Move v v') : Backed v' :=
  hb.of_priceLe hs (h.priceLe (Nat.lt_of_lt_of_le hs hb))

/-- A move of a vault that has shares. -/
def LiveMove (v v' : Vault) : Prop := 0 < v.supply ∧ Move v v'

/-- No moves lower the price of a share as long as there are shares, and every share stays backed. -/
theorem PriceLe.of_moves {v v' : Vault} (hb : Backed v) (h : Relation.ReflTransGen LiveMove v v') :
    PriceLe v v' ∧ Backed v' := by
  induction h with
  | refl => exact ⟨.refl v, hb⟩
  | tail _ hm ih =>
    obtain ⟨hp, hb⟩ := ih
    obtain ⟨hS, hm⟩ := hm
    exact ⟨hp.trans (hm.priceLe (Nat.lt_of_lt_of_le hS hb)) hS, hm.backed hS hb⟩

/-- What some shares are redeemed for, without a charge. -/
def Vault.worth (v : Vault) (shares : Nat) : Nat := shares * v.total / v.supply

theorem PriceLe.worth_le {v v' : Vault} (h : PriceLe v v') (hS : 0 < v.supply) (hS' : 0 < v'.supply)
    (shares : Nat) : v.worth shares ≤ v'.worth shares := by
  rw [Vault.worth, Vault.worth, Nat.le_div_iff_mul_le hS']
  refine Nat.le_of_mul_le_mul_right ?_ hS
  calc shares * v.total / v.supply * v'.supply * v.supply
      = shares * v.total / v.supply * v.supply * v'.supply := by ring
    _ ≤ shares * v.total * v'.supply := Nat.mul_le_mul_right _ (Nat.div_mul_le_self _ _)
    _ = shares * (v.total * v'.supply) := by ring
    _ ≤ shares * (v'.total * v.supply) := Nat.mul_le_mul_left _ h
    _ = shares * v'.total * v.supply := by ring

theorem Backed.enter_empty {v : Vault} (hb : Backed v) (assets : Nat) :
    Backed ⟨v.total + assets, v.supply + assets⟩ := Nat.add_le_add_right hb _

/-- For every amount that the vault has, some shares redeem it with an excess of less than one more asset a
share: the fewest shares that are worth the amount. -/
theorem exists_shares {v : Vault} (hT : 0 < v.total) (hS : 0 < v.supply) {assets : Nat} (ha : assets ≤ v.total) :
    ∃ shares ≤ v.supply, assets ≤ shares * v.total / v.supply ∧
      shares * v.total / v.supply ≤ assets + (v.total - 1) / v.supply := by
  have hworth : assets * v.supply ≤ v.total * (assets * v.supply ⌈/⌉ v.total) := le_smul_ceilDiv hT
  have hfewest : assets * v.supply ⌈/⌉ v.total * v.total ≤ assets * v.supply + v.total - 1 := by
    rw [Nat.ceilDiv_eq_add_pred_div]
    exact Nat.div_mul_le_self _ _
  refine ⟨assets * v.supply ⌈/⌉ v.total, ?_, ?_, ?_⟩
  · rw [ceilDiv_le_iff_le_mul hT]
    exact Nat.mul_le_mul_right _ ha
  · rw [Nat.le_div_iff_mul_le hS, Nat.mul_comm _ v.total]
    exact hworth
  · calc assets * v.supply ⌈/⌉ v.total * v.total / v.supply
        ≤ (v.total - 1 + assets * v.supply) / v.supply := Nat.div_le_div_right (by omega)
      _ = (v.total - 1) / v.supply + assets := Nat.add_mul_div_right _ _ hS
      _ = assets + (v.total - 1) / v.supply := Nat.add_comm _ _

/-! ## One holder -/

/-- A vault with the shares of one holder and what that holder has paid in and received so far. -/
structure Position extends Vault where
  held : Nat
  paid : Nat
  received : Nat
deriving DecidableEq, Repr

namespace Position

/-- The moves of the holder: part of the shares issued or redeemed may go to others as a fee. -/
inductive Step (s : Position) : Position → Prop
  | enter {assets issued kept : Nat} (hk : kept ≤ issued)
      (h : s.total ≠ 0 → s.supply ≠ 0 → issued * s.total ≤ assets * s.supply) :
      Step s ⟨⟨s.total + assets, s.supply + issued⟩, s.held + kept, s.paid + assets, s.received⟩
  | leave {assets redeemed given : Nat} (hr : redeemed ≤ given) (hg : given ≤ s.held)
      (h : assets * s.supply ≤ redeemed * s.total) (ha : assets ≤ s.total) :
      Step s ⟨⟨s.total - assets, s.supply - redeemed⟩, s.held - given, s.paid, s.received + assets⟩

/-- What every position reached from `s₀` satisfies: assets are conserved between the vault and the
holder, the others' shares do not shrink, and while others hold shares the price has not fallen. -/
structure Inv (s₀ s : Position) : Prop where
  assets : s.received + s.total + s₀.paid = s.paid + s₀.total + s₀.received
  held_le : s.held ≤ s.supply
  others : s₀.supply + s.held ≤ s.supply + s₀.held
  price : s₀.supply ≤ s₀.held ∨ (0 < s.total ∧ PriceLe s₀.toVault s.toVault)

theorem Inv.init {s₀ : Position} (hT : 0 < s₀.total) (hh : s₀.held ≤ s₀.supply) : Inv s₀ s₀ :=
  ⟨by omega, hh, by omega, .inr ⟨hT, .refl _⟩⟩

theorem Inv.supply_pos {s₀ s : Position} (hi : Inv s₀ s) (h : s₀.held < s₀.supply) : 0 < s.supply := by
  have := hi.others; have := hi.held_le; omega

theorem Inv.step {s₀ s s' : Position} (hi : Inv s₀ s) (hs : Step s s') : Inv s₀ s' := by
  have ha := hi.assets
  have hle := hi.held_le
  have ho := hi.others
  cases hs with
  | @enter assets issued kept hk h =>
    refine ⟨by dsimp only; omega, by dsimp only; omega, by dsimp only; omega, ?_⟩
    rcases hi.price with hp | ⟨hT, hp⟩
    · exact .inl hp
    by_cases hS : s₀.supply ≤ s₀.held
    · exact .inl hS
    have hpos := hi.supply_pos (Nat.lt_of_not_le hS)
    exact .inr ⟨by dsimp only; omega,
      hp.trans ((Move.enter (h (by omega) (by omega))).priceLe hT) hpos⟩
  | @leave assets redeemed given hr hg h ha' =>
    refine ⟨by dsimp only; omega, by dsimp only; omega, by dsimp only; omega, ?_⟩
    rcases hi.price with hp | ⟨hT, hp⟩
    · exact .inl hp
    by_cases hS : s₀.supply ≤ s₀.held
    · exact .inl hS
    have hpos := hi.supply_pos (Nat.lt_of_not_le hS)
    have hlt : redeemed < s.supply := by omega
    refine .inr ⟨?_, hp.trans ((Move.leave h ha' hlt.le).priceLe hT) hpos⟩
    -- all assets leave only against all shares
    have : assets * s.supply < s.total * s.supply :=
      Nat.lt_of_le_of_lt h (by rw [Nat.mul_comm s.total]; exact Nat.mul_lt_mul_of_pos_right hlt hT)
    have := Nat.lt_of_mul_lt_mul_right this
    dsimp only; omega

theorem Inv.run {s₀ s : Position} (h₀ : Inv s₀ s₀) (h : Relation.ReflTransGen Step s₀ s) : Inv s₀ s := by
  induction h with
  | refl => exact h₀
  | tail _ hs ih => exact ih.step hs

/-- What was received and what the holding is still worth, rounded down, against what was paid in
and what the holding was worth, cross-multiplied by the initial supply. -/
theorem Inv.value_le {s₀ s : Position} (hi : Inv s₀ s) (hh : s₀.held ≤ s₀.supply) :
    (s.received + s.held * s.total / s.supply) * s₀.supply + s₀.paid * s₀.supply ≤
      s.paid * s₀.supply + s₀.held * s₀.total + s₀.received * s₀.supply := by
  have hq : s.held * s.total / s.supply ≤ s.total :=
    Nat.div_le_of_le_mul (Nat.mul_le_mul_right _ hi.held_le)
  generalize hqd : s.held * s.total / s.supply = q at hq ⊢
  -- the others' part of the initial assets is still in the vault
  have hkey : q * s₀.supply + (s₀.supply - s₀.held) * s₀.total ≤ s.total * s₀.supply := by
    rcases Nat.lt_or_ge s₀.held s₀.supply with hlt | hge
    · obtain ⟨-, hp⟩ := hi.price.resolve_left (by omega)
      have hpos := hi.supply_pos hlt
      have hqs : q * s.supply ≤ s.held * s.total := by rw [← hqd]; exact Nat.div_mul_le_self _ _
      refine Nat.le_of_mul_le_mul_right ?_ hpos
      calc (q * s₀.supply + (s₀.supply - s₀.held) * s₀.total) * s.supply
          = s₀.supply * (q * s.supply) + (s₀.supply - s₀.held) * (s₀.total * s.supply) := by ring
        _ ≤ s₀.supply * (s.held * s.total) + (s₀.supply - s₀.held) * (s.total * s₀.supply) :=
            Nat.add_le_add (Nat.mul_le_mul_left _ hqs) (Nat.mul_le_mul_left _ hp)
        _ = s.total * s₀.supply * (s.held + (s₀.supply - s₀.held)) := by ring
        _ ≤ s.total * s₀.supply * s.supply :=
            Nat.mul_le_mul_left _ (by have := hi.others; omega)
    · have : s₀.supply - s₀.held = 0 := by omega
      rw [this, Nat.zero_mul, Nat.add_zero]
      exact Nat.mul_le_mul_right _ hq
  obtain ⟨k, hk⟩ := Nat.exists_eq_add_of_le hh
  rw [show s₀.supply - s₀.held = k by omega] at hkey
  have ha := congrArg (· * s₀.supply) hi.assets
  simp only [Nat.add_mul] at ha ⊢
  have hsplit : s₀.total * s₀.supply = s₀.held * s₀.total + k * s₀.total := by rw [hk]; ring
  omega

/-- No extraction: over any run of the holder's moves. -/
theorem no_extraction {s₀ s : Position} (hT : 0 < s₀.total) (hh : s₀.held ≤ s₀.supply)
    (h : Relation.ReflTransGen Step s₀ s) :
    (s.received + s.held * s.total / s.supply) * s₀.supply + s₀.paid * s₀.supply ≤
      s.paid * s₀.supply + s₀.held * s₀.total + s₀.received * s₀.supply :=
  ((Inv.init hT hh).run h).value_le hh

end Position

/-! ## Parts against the whole

A charge on each part is taken before the part is redeemed, or from the shares that a part issues. -/

/-- A charge that is no more on a sum than on its parts. -/
structure Charge (g : Nat → Nat) : Prop where
  zero : g 0 = 0
  add_le : ∀ a b, g (a + b) ≤ g a + g b

/-- A part of an amount that is rounded up. -/
def ceilShare (num den n : Nat) : Nat := n * num ⌈/⌉ den

theorem ceilShare_mono (num den : Nat) : Monotone (ceilShare num den) := by
  intro a b h
  rcases Nat.eq_zero_or_pos den with rfl | hd
  · exact (ceilDiv_zero _).trans_le (Nat.zero_le _)
  · rw [ceilShare, ceilDiv_le_iff_le_mul hd]
    exact (Nat.mul_le_mul_right _ h).trans (le_smul_ceilDiv hd)

theorem ceilShare_le {num den : Nat} (h : num ≤ den) (n : Nat) : ceilShare num den n ≤ n := by
  rcases Nat.eq_zero_or_pos den with rfl | hd
  · exact (ceilDiv_zero _).trans_le (Nat.zero_le _)
  · rw [ceilShare, ceilDiv_le_iff_le_mul hd, Nat.mul_comm den]
    exact Nat.mul_le_mul_left _ h

theorem Charge.ceilShare (num den : Nat) : Charge (ceilShare num den) := by
  rcases Nat.eq_zero_or_pos den with rfl | hd
  · exact ⟨ceilDiv_zero _, fun a b => (ceilDiv_zero _).trans_le (Nat.zero_le _)⟩
  refine ⟨by rw [ShareVault.ceilShare, Nat.zero_mul, zero_ceilDiv], fun a b => ?_⟩
  have ha : a * num ≤ den * ShareVault.ceilShare num den a := le_smul_ceilDiv hd
  have hb : b * num ≤ den * ShareVault.ceilShare num den b := le_smul_ceilDiv hd
  rw [ShareVault.ceilShare, ceilDiv_le_iff_le_mul hd, Nat.add_mul, Nat.mul_add]
  exact Nat.add_le_add ha hb

theorem Charge.comp {f g : Nat → Nat} (hf : Charge f) (hm : Monotone f) (hg : Charge g) : Charge (f ∘ g) := by
  refine ⟨by rw [Function.comp, hg.zero, hf.zero], fun a b => ?_⟩
  exact (hm (hg.add_le a b)).trans (hf.add_le _ _)

/-- What a charge leaves of more is more, if it never exceeds the amount. -/
theorem Charge.net_mono {g : Nat → Nat} (hg : Charge g) (hle : ∀ n, g n ≤ n) {a b : Nat} (h : a ≤ b) :
    a - g a ≤ b - g b := by
  obtain ⟨c, rfl⟩ := Nat.exists_eq_add_of_le h
  have := hg.add_le a c
  have := hle c
  omega

/-- After redeeming `B` shares for `X` assets, redeeming `b` more at the price that is left pays no more than
the price before did for both. -/
theorem leave_leave {T S X B x b : Nat} (hX : X ≤ T) (hB : B + b ≤ S) (h₁ : X * S ≤ B * T)
    (h₂ : x * (S - B) ≤ b * (T - X)) (h0 : S = B → x = 0) : (X + x) * S ≤ (B + b) * T := by
  obtain ⟨Y, rfl⟩ := Nat.exists_eq_add_of_le hX
  obtain ⟨c, rfl⟩ := Nat.exists_eq_add_of_le hB
  rw [show B + b + c - B = b + c by omega, Nat.add_sub_cancel_left] at h₂
  rcases Nat.eq_zero_or_pos (b + c) with hz | hpos
  · obtain ⟨rfl, rfl⟩ : b = 0 ∧ c = 0 := by omega
    rw [h0 rfl]
    exact h₁
  -- the shares that are not redeemed weigh the same in both prices
  have hprice : X * (b + c) ≤ B * Y := by
    have hs : X * (B + b + c) = B * X + X * (b + c) := by ring
    have ht : B * (X + Y) = B * X + B * Y := by ring
    omega
  have hc := Nat.mul_le_mul_right c hprice
  have hx := Nat.mul_le_mul_right (B + b + c) h₂
  refine Nat.le_of_mul_le_mul_right ?_ hpos
  calc (X + x) * (B + b + c) * (b + c)
      = X * (b + c) * c + (X * (B + b) * (b + c) + x * (b + c) * (B + b + c)) := by ring
    _ ≤ B * Y * c + (X * (B + b) * (b + c) + b * Y * (B + b + c)) := by omega
    _ = (B + b) * (X + Y) * (b + c) := by ring

/-- Shares issued at a price that has not fallen are no more than those of the first price. -/
theorem PriceLe.enter_le {v v' : Vault} (h : PriceLe v v') (hT : 0 < v'.total) {assets shares : Nat}
    (he : shares * v'.total ≤ assets * v'.supply) : shares * v.total ≤ assets * v.supply := by
  refine Nat.le_of_mul_le_mul_right ?_ hT
  calc shares * v.total * v'.total = shares * v'.total * v.total := by ring
    _ ≤ assets * v'.supply * v.total := Nat.mul_le_mul_right _ he
    _ = assets * (v.total * v'.supply) := by ring
    _ ≤ assets * (v'.total * v.supply) := Nat.mul_le_mul_left _ h
    _ = assets * v.supply * v'.total := by ring

/-- Steps one after the other, each of an amount and with a result, and the sums of both. -/
inductive Parts {σ : Type*} (step : σ → Nat → Nat → σ → Prop) (s : σ) : σ → Nat → Nat → Prop
  | refl : Parts step s s 0 0
  | tail {s' s'' : σ} {given got n x : Nat} (h : Parts step s s' given got) (hs : step s' n x s'') :
      Parts step s s'' (given + n) (got + x)

/-- Parts of one system are parts of another that each step is one of, while an invariant holds. -/
theorem Parts.map {σ τ : Type*} {step : σ → Nat → Nat → σ → Prop} {step' : τ → Nat → Nat → τ → Prop}
    {I : σ → Prop} {f : σ → τ} (hf : ∀ s n x s', I s → step s n x s' → step' (f s) n x (f s') ∧ I s')
    {s s' : σ} {given got : Nat} (hi : I s) (h : Parts step s s' given got) :
    Parts step' (f s) (f s') given got ∧ I s' := by
  induction h with
  | refl => exact ⟨.refl, hi⟩
  | tail _ hs ih =>
    obtain ⟨hs', hi'⟩ := hf _ _ _ _ ih.2 hs
    exact ⟨ih.1.tail hs', hi'⟩

/-- A holder hands in `n` shares: those of the charge stay shares of others, the rest is redeemed. -/
structure Redeem (g : Nat → Nat) (v : Vault) (n assets : Nat) (v' : Vault) : Prop where
  charge_le : g n ≤ n
  price : assets * v.supply ≤ (n - g n) * v.total
  empty : v.supply = 0 → assets = 0
  assets_le : assets ≤ v.total
  redeemed_le : n - g n ≤ v.supply
  total : v'.total = v.total - assets
  supply : v'.supply = v.supply - (n - g n)

/-- Handing in shares in parts redeems no more shares than at once, and pays no more than their price. -/
theorem Redeem.parts {g : Nat → Nat} (hg : Charge g) {v v' : Vault} {given assets : Nat}
    (h : Parts (Redeem g) v v' given assets) :
    v'.total + assets = v.total ∧ ∃ redeemed, v'.supply + redeemed = v.supply ∧
      redeemed + g given ≤ given ∧ assets * v.supply ≤ redeemed * v.total := by
  induction h with
  | refl => exact ⟨rfl, 0, rfl, by rw [hg.zero], by rw [Nat.zero_mul]; exact Nat.zero_le _⟩
  | @tail s' s'' given got n x _ hs ih =>
    obtain ⟨hT, redeemed, hS, hle, hprice⟩ := ih
    have hx := hs.assets_le
    have hr := hs.redeemed_le
    have hc := hs.charge_le
    have hadd := hg.add_le given n
    have hsub : s'.supply = v.supply - redeemed := by omega
    have htot : s'.total = v.total - got := by omega
    refine ⟨by rw [hs.total]; omega, redeemed + (n - g n), by rw [hs.supply]; omega, by omega, ?_⟩
    refine leave_leave (by omega) (by omega) hprice ?_ fun he => hs.empty (by omega)
    rw [← hsub, ← htot]
    exact hs.price

theorem Redeem.parts_le {g : Nat → Nat} (hg : Charge g) {v v' : Vault} {given assets : Nat}
    (hS : 0 < v.supply) (h : Parts (Redeem g) v v' given assets) :
    assets ≤ (given - g given) * v.total / v.supply := by
  obtain ⟨-, redeemed, -, hle, hprice⟩ := Redeem.parts hg h
  rw [Nat.le_div_iff_mul_le hS]
  exact hprice.trans (Nat.mul_le_mul_right _ (by omega))

/-- A holder pays in assets: of the shares issued those of the charge go to others. -/
def Issue (g : Nat → Nat) (v : Vault) (assets kept : Nat) (v' : Vault) : Prop :=
  ∃ shares, g shares ≤ shares ∧ kept = shares - g shares ∧ shares * v.total ≤ assets * v.supply ∧
    v' = ⟨v.total + assets, v.supply + shares⟩

/-- Paying in assets in parts issues no more shares than at once, and leaves no more of them. -/
theorem Issue.parts {g : Nat → Nat} (hg : Charge g) {v v' : Vault} {assets kept : Nat} (hT : 0 < v.total)
    (hS : 0 < v.supply) (h : Parts (Issue g) v v' assets kept) :
    0 < v'.total ∧ 0 < v'.supply ∧ PriceLe v v' ∧
      ∃ shares, kept + g shares ≤ shares ∧ shares * v.total ≤ assets * v.supply := by
  induction h with
  | refl => exact ⟨hT, hS, .refl v, 0, by rw [hg.zero], by rw [Nat.zero_mul]; exact Nat.zero_le _⟩
  | @tail s' s'' given got n x _ hs ih =>
    obtain ⟨hT', hS', hp, shares, hle, hprice⟩ := ih
    obtain ⟨new, hc, rfl, hnew, rfl⟩ := hs
    have hadd := hg.add_le shares new
    refine ⟨Nat.add_pos_left hT' _, Nat.add_pos_left hS' _, hp.trans ((Move.enter hnew).priceLe hT') hS',
      shares + new, by omega, ?_⟩
    rw [Nat.add_mul, Nat.add_mul]
    exact Nat.add_le_add hprice (hp.enter_le hT' hnew)

theorem Issue.parts_le {g : Nat → Nat} (hg : Charge g) (hle : ∀ n, g n ≤ n) {v v' : Vault}
    {assets kept : Nat} (hT : 0 < v.total) (hS : 0 < v.supply) (h : Parts (Issue g) v v' assets kept) :
    kept ≤ assets * v.supply / v.total - g (assets * v.supply / v.total) := by
  obtain ⟨-, -, -, shares, hk, hprice⟩ := Issue.parts hg hT hS h
  have hmono := hg.net_mono hle ((Nat.le_div_iff_mul_le hT).2 hprice)
  omega

end ShareVault
