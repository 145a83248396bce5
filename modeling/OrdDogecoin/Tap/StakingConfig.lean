/-
Module: OrdDogecoin.Tap.StakingConfig
Purpose: The staking branch of `validate_authority_config_action`, and when the numbers that it puts into
  JSON end the process.
Trusted boundary: `json!` of an `i128` succeeds when the number fits `i64` or `u64` (`serde_json` without
  arbitrary precision)
Main exports: stakingPolicy, stakingNumbers, settles_stakingPolicy_iff
-/
import OrdDogecoin.Tap.Authority
import OrdDogecoin.Lib.Slices

namespace OrdDogecoin.Tap

open Slices

/-- `json!` of an `i128`. -/
def jsonI128 (n : ℤ) : Run Json :=
  if -2 ^ 63 ≤ n ∧ n < 2 ^ 64 then .ok (.number (intText n)) else .error .panicked

/-- `parse::<i128>` of a weight, which must be positive. -/
def tierWeight (text : Text) : Option ℕ :=
  let parsed := match text with
    | '+' :: rest => parseDigits rest
    | _ => parseDigits text
  parsed.filter fun weight => 0 < weight ∧ weight < 2 ^ 127

/-- The id, the duration and the weight of a tier. -/
def tierTerms (seen : List Text) (tier : Json) : Option (Text × ℤ × ℕ) := do
  let id ← (← tier.get "id").asStr
  guard (id ∉ seen)
  let dur ← (tier.get "dur").bind jsParseInt
  guard (0 < dur)
  let weight ← tierWeight (jsValueToString (← tier.get "w"))
  some (id, dur, weight)

/-- The tiers in their normal form; no two have the same id. -/
def stakingTiers (seen : List Text) : List Json → Run (List Json)
  | [] => .ok []
  | tier :: tiers => do
      let (id, dur, weight) ← orRefuse (tierTerms seen tier)
      let dur ← jsonI128 dur
      let rest ← stakingTiers (id :: seen) tiers
      .ok (.object [("dur".toList, dur), ("id".toList, .string id),
        ("w".toList, .string (Nat.toDigits 10 weight))] :: rest)

/-- The delay `ud` of an update. -/
def updateDelay (action : Json) : Option ℤ :=
  (((action.get "r").bind (Json.get · "ud")).elim (some 0) jsParseInt).filter (0 ≤ ·)

section Policy

variable (env : TapEnv) (deployed : TickKey → Bool) (configured : Bool) (auth : Text) (action : Json)

/-- The checks before the tiers: the policy for rewards without shares, and the tiers. -/
def stakingTerms : Option (Text × List Json) := do
  guard (env.toLowercase (← (← action.get "op").asStr) = "auth-cfg".toList)
  guard ((action.get "k").bind Json.asStr = some "stk".toList)
  let stk ← (← action.get "stk").asStr
  let listed ← (← action.get "rt").asArray
  let ctl ← action.get "ctl"
  guard ((ctl.get "ty").bind Json.asStr = some "ta".toList ∧ (ctl.get "auth").bind Json.asStr = some auth)
  let r ← action.get "r"
  guard ((r.get "cm").bind Json.asStr = some "arps".toList ∧
    (r.get "rnd").bind Json.asStr = some "flr".toList ∧ (r.get "aw").any (· matches .bool false))
  let tiers ← (← r.get "tr").asArray
  let policy ← (← r.get "ep").asStr
  guard (policy ∈ ["reject", "hold", "carry"].map String.toList)
  guard (!configured)
  guard (deployed (jsonStringifyLower env (env.jsToLowercase stk)))
  let ticks ← listed.mapM Json.asStr
  guard (ticks.all fun tick => deployed (jsonStringifyLower env (env.jsToLowercase tick)))
  some (policy, tiers)

/-- The field `r` of a staking configuration. -/
def stakingPolicy : Run Json := do
  let (policy, listed) ← orRefuse (stakingTerms env deployed configured auth action)
  let tiers ← stakingTiers [] listed
  let delay ← orRefuse (updateDelay action)
  let delay ← jsonI128 delay
  .ok (.object [("aw".toList, .bool false), ("cm".toList, .string "arps".toList),
    ("ep".toList, .string policy), ("rnd".toList, .string "flr".toList), ("tr".toList, .array tiers),
    ("ud".toList, delay)])

/-! ### The numbers of a configuration -/

/-- The durations of the tiers, up to the first tier that is refused. -/
def tierNumbers (seen : List Text) : List Json → List ℤ
  | [] => []
  | tier :: tiers =>
      match tierTerms seen tier with
      | none => []
      | some (id, dur, _) => dur :: tierNumbers (id :: seen) tiers

/-- The durations and the delay, up to the first check that refuses the configuration. -/
def stakingNumbers : List ℤ :=
  match stakingTerms env deployed configured auth action with
  | none => []
  | some (_, listed) =>
      let durations := tierNumbers [] listed
      if durations.length = listed.length then durations ++ (updateDelay action).toList else durations

end Policy

theorem jsonI128_of_lt {n : ℤ} (hn : 0 ≤ n) (hlt : n < 2 ^ 64) : jsonI128 n = .ok (.number (intText n)) :=
  if_pos ⟨by omega, hlt⟩

theorem jsonI128_of_le {n : ℤ} (hle : 2 ^ 64 ≤ n) : jsonI128 n = .error .panicked :=
  if_neg fun h => absurd h.2 (by omega)

theorem tierTerms_pos {seen : List Text} {tier : Json} {id : Text} {dur : ℤ} {weight : ℕ}
    (hterms : tierTerms seen tier = some (id, dur, weight)) : 0 < dur := by
  unfold tierTerms at hterms
  obtain ⟨idValue, hterms⟩ := Proc.of_bind hterms
  obtain ⟨text, hterms⟩ := Proc.of_bind hterms
  replace hterms := Proc.of_guard hterms
  obtain ⟨found, hterms⟩ := Proc.of_bind hterms
  obtain ⟨hpos, hterms⟩ := Proc.guard_bind_eq_some.1 hterms
  obtain ⟨value, hterms⟩ := Proc.of_bind hterms
  obtain ⟨parsed, hterms⟩ := Proc.of_bind hterms
  cases hterms
  exact hpos

/-- What becomes of the tiers: a duration is too long, a tier is refused, or all are built. -/
theorem stakingTiers_cases : ∀ (seen : List Text) (tiers : List Json),
    ((∃ n ∈ tierNumbers seen tiers, 2 ^ 64 ≤ n) ∧ stakingTiers seen tiers = .error .panicked) ∨
      (∀ n ∈ tierNumbers seen tiers, n < 2 ^ 64) ∧
        (((tierNumbers seen tiers).length < tiers.length ∧ stakingTiers seen tiers = .error .refused) ∨
          (tierNumbers seen tiers).length = tiers.length ∧ ∃ built, stakingTiers seen tiers = .ok built)
  | seen, [] => .inr ⟨fun _ hmem => absurd hmem List.not_mem_nil, .inr ⟨rfl, [], rfl⟩⟩
  | seen, tier :: tiers => by
      rw [tierNumbers, stakingTiers]
      cases hterms : tierTerms seen tier with
      | none => exact .inr ⟨fun _ hmem => absurd hmem List.not_mem_nil, .inl ⟨by simp, rfl⟩⟩
      | some terms =>
          obtain ⟨id, dur, weight⟩ := terms
          have hpos := tierTerms_pos hterms
          rcases lt_or_ge dur (2 ^ 64) with hfits | hlong
          · simp only [orRefuse, Results.ok_bind, jsonI128_of_lt hpos.le hfits]
            rcases stakingTiers_cases (id :: seen) tiers with
              ⟨⟨n, hmem, hlong⟩, hrun⟩ | ⟨hall, ⟨hlength, hrun⟩ | ⟨hlength, built, hrun⟩⟩
            · exact .inl ⟨⟨n, List.mem_cons_of_mem _ hmem, hlong⟩, by rw [hrun]; rfl⟩
            · exact .inr ⟨List.forall_mem_cons.2 ⟨hfits, hall⟩, .inl ⟨Nat.succ_lt_succ hlength,
                by rw [hrun]; rfl⟩⟩
            · exact .inr ⟨List.forall_mem_cons.2 ⟨hfits, hall⟩, .inr ⟨congrArg Nat.succ hlength, _,
                by rw [hrun]; rfl⟩⟩
          · simp only [orRefuse, Results.ok_bind, jsonI128_of_le hlong]
            exact .inl ⟨⟨dur, List.mem_cons_self, hlong⟩, rfl⟩

/-- The process ends exactly when one of the numbers is too large. -/
theorem settles_stakingPolicy_iff (env : TapEnv) (deployed : TickKey → Bool) (configured : Bool)
    (auth : Text) (action : Json) :
    Settles (stakingPolicy env deployed configured auth action) ↔
      ∀ n ∈ stakingNumbers env deployed configured auth action, n < 2 ^ 64 := by
  unfold stakingPolicy stakingNumbers
  cases stakingTerms env deployed configured auth action with
  | none => simp [orRefuse]
  | some terms =>
      obtain ⟨policy, listed⟩ := terms
      simp only [orRefuse, Results.ok_bind]
      rcases stakingTiers_cases [] listed with
        ⟨⟨n, hmem, hlong⟩, hrun⟩ | ⟨hall, ⟨hlength, hrun⟩ | ⟨hlength, built, hrun⟩⟩
      · rw [hrun]
        refine ⟨fun settles => absurd (settles _ rfl) (by decide), fun hfits => absurd (hfits n ?_) (by omega)⟩
        split
        · exact List.mem_append_left _ hmem
        · exact hmem
      · rw [hrun, if_neg hlength.ne]
        simpa using hall
      · rw [hrun, if_pos hlength, Results.ok_bind]
        cases hdelay : updateDelay action with
        | none => simpa using hall
        | some delay =>
            have hpos : 0 ≤ delay := of_decide_eq_true (Option.filter_eq_some_iff.1 hdelay).2
            simp only [Results.ok_bind, Option.toList_some, List.forall_mem_append, List.mem_singleton,
              forall_eq]
            rcases lt_or_ge delay (2 ^ 64) with hfits | hlong
            · rw [jsonI128_of_lt hpos hfits]
              exact ⟨fun _ => ⟨hall, hfits⟩, fun _ => settles_ok _⟩
            · rw [jsonI128_of_le hlong]
              exact ⟨fun settles => absurd (settles _ rfl) (by decide), fun h => absurd h.2 (by omega)⟩

end OrdDogecoin.Tap
