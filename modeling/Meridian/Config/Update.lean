import Meridian.Config.Schema

/-!
# Partial configuration updates

The README has `PUT /api/config` accept a partial `bot.json`, and `PUT /api/config/exchanges/{name}`
updates one exchange's sections. Model of the two handlers of `api/routes.py:246-299`: the first
validates the body by itself, the second replaces whole members of the exchange's dumped entry.

What a partial update should do is `Updated` of the codecs: sections and dictionaries are updated
field by field at any depth, and the list of exchanges entry by entry, each by the item that names
its exchange.

Results:
* `safety_reset`: naming one limit of the safety section resets the others, naming one depth field
  of an exchange resets its safety section, and naming `dry_run` alone drops all exchanges;
* `partialExchange_of_flat`: a body that names no section of an exchange's entry changes only what
  it names;
* `partial_update_iff`: each handler changes only what the body names exactly if its document is
  accepted and what it leaves out is at its default, for the second one below the named sections.
-/

namespace Meridian

/-- The errors of the two handlers; pydantic's text is left out. -/
inductive ApiError where
  /-- status 404 -/
  | not_found (detail : String)
  /-- status 422 -/
  | unprocessable

/-- `ConfigResponse`, with the configuration that has been saved and applied. -/
structure ConfigResponse where
  config : BotConfig
  message : String

/-- `update_config` (`routes.py:247-270`). -/
def update_config (body : Dict) : Except ApiError ConfigResponse :=
  match BotConfig.model_validate body with
  | some new_config => .ok ⟨new_config, "Config updated and hot-reloaded"⟩
  | none => .error .unprocessable

/-- The loop of `update_exchange_config`: update the first entry of this exchange. -/
def update_entry (exchange : String) (body : Dict) : List Json → Option (List Json)
  | [] => none
  | ex :: rest =>
    if (ex.obj?.bind fun d => (d.get "exchange").bind Json.str?) = some exchange then
      ex.obj?.map fun d => .obj (d.update body) :: rest
    else (update_entry exchange body rest).map (ex :: ·)

/-- The document that `update_exchange_config` validates. -/
def exchange_document (config : BotConfig) (exchange : String) (body : Dict) : Option Dict :=
  let current := config.model_dump
  (((current.get "exchanges").bind Json.arr?).bind (update_entry exchange body)).map fun l =>
    current.update [("exchanges", .arr l)]

/-- `update_exchange_config` (`routes.py:273-299`). -/
def update_exchange_config (config : BotConfig) (exchange : String) (body : Dict) :
    Except ApiError ConfigResponse :=
  match exchange_document config exchange body with
  | some current =>
    match BotConfig.model_validate current with
    | some new_config => .ok ⟨new_config, exchange ++ " config updated"⟩
    | none => .error .unprocessable
  | none => .error (.not_found ("Exchange '" ++ exchange ++ "' not in config"))

variable {config : BotConfig} {exchange : String} {body : Dict}

/-! ## The whole configuration -/

/-- `PUT /api/config` changes what the body names, to the body's values, and nothing else. -/
def PartialConfig (config : BotConfig) (body : Dict) : Prop :=
  ∃ r, update_config body = .ok r ∧
    BotConfig.fields.Updated (BotConfig.tuple config) body (BotConfig.tuple r.config)

theorem partialConfig_iff : PartialConfig config body ↔
    (BotConfig.model_validate body).isSome = true ∧
      BotConfig.fields.AtDefaults (BotConfig.tuple config) body := by
  unfold PartialConfig update_config
  cases hv : BotConfig.model_validate body with
  | none => exact iff_of_false (by rintro ⟨r, hr, -⟩; cases hr) (by rintro ⟨h, -⟩; cases h)
  | some new_config =>
    have hread : BotConfig.fields.read body = some (BotConfig.tuple new_config) := by
      obtain ⟨x, hx, rfl⟩ := Option.map_eq_some_iff.mp (Option.filter_eq_some_iff.mp hv).1
      rw [Equiv.apply_symm_apply]
      exact hx
    rw [← BotConfig.fields.updated_iff hread]
    constructor
    · rintro ⟨r, hr, hup⟩
      cases hr
      exact ⟨rfl, hup⟩
    · rintro ⟨-, hup⟩
      exact ⟨_, rfl, hup⟩

/-! ## One exchange -/

/-- The first entry of an exchange, and what stands around it. -/
structure FirstEntry (l : List ExchangeBotConfig) (exchange : String)
    (pre : List ExchangeBotConfig) (ex : ExchangeBotConfig) (post : List ExchangeBotConfig) :
    Prop where
  split : l = pre ++ ex :: post
  before : ∀ e ∈ pre, e.exchange.text ≠ exchange
  here : ex.exchange.text = exchange

/-- `PUT /api/config/exchanges/{exchange}` changes what the body names in the exchange's entry, to
the body's values, and nothing else. -/
def PartialExchange (config : BotConfig) (exchange : String) (body : Dict) : Prop :=
  ∃ pre ex post ex' message, FirstEntry config.exchanges exchange pre ex post ∧
    update_exchange_config config exchange body =
      .ok ⟨{ config with exchanges := pre ++ ex' :: post }, message⟩ ∧
    ExchangeBotConfig.fields.Updated (ExchangeBotConfig.tuple ex) body (ExchangeBotConfig.tuple ex')

/-- A dumped entry says which exchange it is for. -/
theorem exchange_dump (ex : ExchangeBotConfig) :
    ((ExchangeBotConfig.codec.dump ex).obj?.bind fun d => (d.get "exchange").bind Json.str?) =
      some ex.exchange.text := rfl

theorem update_entry_dump {l : List ExchangeBotConfig} {js : List Json}
    (h : update_entry exchange body (l.map ExchangeBotConfig.codec.dump) = some js) :
    ∃ pre ex post, FirstEntry l exchange pre ex post ∧
      js = pre.map ExchangeBotConfig.codec.dump ++
        .obj ((ExchangeBotConfig.fields.dump (ExchangeBotConfig.tuple ex)).update body) ::
          post.map ExchangeBotConfig.codec.dump := by
  induction l generalizing js with
  | nil => cases h
  | cons e l ih =>
    rw [List.map_cons, update_entry, exchange_dump] at h
    split at h
    · rename_i he
      obtain rfl := Option.some.inj h
      exact ⟨[], e, l, ⟨rfl, fun _ h => absurd h List.not_mem_nil, Option.some.inj he⟩, rfl⟩
    · rename_i he
      obtain ⟨js', hjs, rfl⟩ := Option.map_eq_some_iff.mp h
      obtain ⟨pre, ex, post, hfirst, rfl⟩ := ih hjs
      refine ⟨e :: pre, ex, post, ⟨by rw [hfirst.split]; rfl, ?_, hfirst.here⟩, rfl⟩
      intro e' he'
      rcases List.mem_cons.mp he' with rfl | he'
      · exact fun h => he (congrArg some h)
      · exact hfirst.before e' he'

theorem FirstEntry.unique {l pre pre' post post' : List ExchangeBotConfig}
    {ex ex' : ExchangeBotConfig} (h : FirstEntry l exchange pre ex post)
    (h' : FirstEntry l exchange pre' ex' post') : pre' = pre ∧ ex' = ex ∧ post' = post := by
  obtain ⟨rfl, hbefore, hhere⟩ := h
  obtain ⟨hsplit, hbefore', hhere'⟩ := h'
  induction pre generalizing pre' with
  | nil =>
    cases pre' with
    | nil =>
      obtain ⟨rfl, rfl⟩ := List.cons.inj hsplit
      exact ⟨rfl, rfl, rfl⟩
    | cons e pre' =>
      obtain ⟨rfl, -⟩ := List.cons.inj hsplit
      exact absurd hhere (hbefore' _ List.mem_cons_self)
  | cons e pre ih =>
    cases pre' with
    | nil =>
      obtain ⟨rfl, -⟩ := List.cons.inj hsplit
      exact absurd hhere' (hbefore _ List.mem_cons_self)
    | cons e' pre' =>
      obtain ⟨rfl, hrest⟩ := List.cons.inj hsplit
      obtain ⟨rfl, rfl, rfl⟩ := ih (fun e he => hbefore e (List.mem_cons_of_mem _ he)) hrest
        fun e he => hbefore' e (List.mem_cons_of_mem _ he)
      exact ⟨rfl, rfl, rfl⟩

/-- A dumped configuration with another list of exchanges is read as one. -/
theorem validate_exchanges {js : List Json} {new_config : BotConfig}
    (h : BotConfig.model_validate (config.model_dump.update [("exchanges", .arr js)]) =
      some new_config) :
    ∃ l, ExchangeBotConfig.codec.validateAll js = some l ∧
      new_config = { config with exchanges := l } := by
  obtain ⟨x, hx, rfl⟩ := Option.map_eq_some_iff.mp (Option.filter_eq_some_iff.mp h).1
  unfold BotConfig.fields at hx
  obtain ⟨h1, hx⟩ := Fields.read_cons hx
  obtain ⟨h2, hx⟩ := Fields.read_cons hx
  obtain ⟨h3, hx⟩ := Fields.read_cons hx
  obtain ⟨h4, hx⟩ := Fields.read_cons hx
  obtain ⟨h5, -⟩ := Fields.read_cons hx
  obtain ⟨dry_run, weights, volatility, exchanges, balances, ⟨⟩⟩ := x
  have e1 : dry_run = config.dry_run := FieldInfo.kept rfl rfl h1
  have e2 : weights = config.global_mid_weights := FieldInfo.kept rfl rfl h2
  have e3 : volatility = config.volatility := FieldInfo.kept rfl rfl h3
  have e5 : balances = config.initial_balances := FieldInfo.kept rfl rfl h5
  refine ⟨exchanges, (Option.filter_eq_some_iff.mp h4).1, ?_⟩
  rw [e1, e2, e3, e5]
  rfl

/-- What the handler validates, if it is accepted: the first entry of the exchange is read from its
dump with the body's members replaced, and all else is as it was. -/
theorem exchange_document_accepted {current : Dict} {new_config : BotConfig}
    (hd : exchange_document config exchange body = some current)
    (hv : BotConfig.model_validate current = some new_config) :
    ∃ pre ex post ex', FirstEntry config.exchanges exchange pre ex post ∧
      new_config = { config with exchanges := pre ++ ex' :: post } ∧
      ExchangeBotConfig.fields.read
          ((ExchangeBotConfig.fields.dump (ExchangeBotConfig.tuple ex)).update body) =
        some (ExchangeBotConfig.tuple ex') := by
  obtain ⟨js, hjs, rfl⟩ := Option.map_eq_some_iff.mp hd
  obtain ⟨pre, ex, post, hfirst, rfl⟩ := update_entry_dump hjs
  obtain ⟨l, hl, rfl⟩ := validate_exchanges hv
  obtain ⟨ex', hex, rfl⟩ := Codec.validateAll_insert hl
  obtain ⟨x, hx, rfl⟩ := Option.map_eq_some_iff.mp (Option.filter_eq_some_iff.mp hex).1
  exact ⟨pre, ex, post, _, hfirst, rfl, by rw [Equiv.apply_symm_apply]; exact hx⟩

theorem update_exchange_config_ok {r : ConfigResponse} :
    update_exchange_config config exchange body = .ok r ↔
      (exchange_document config exchange body).bind BotConfig.model_validate = some r.config ∧
        exchange ++ " config updated" = r.message := by
  unfold update_exchange_config
  cases exchange_document config exchange body with
  | none => exact iff_of_false (by rintro ⟨⟩) (by rintro ⟨⟨⟩, -⟩)
  | some current =>
    simp only [Option.bind_some]
    cases BotConfig.model_validate current with
    | none => exact iff_of_false (by rintro ⟨⟩) (by rintro ⟨⟨⟩, -⟩)
    | some new_config =>
      obtain ⟨config', message⟩ := r
      constructor
      · rintro ⟨⟩
        exact ⟨rfl, rfl⟩
      · rintro ⟨⟨⟩, rfl⟩
        rfl

theorem partialExchange_iff : PartialExchange config exchange body ↔
    ((exchange_document config exchange body).bind BotConfig.model_validate).isSome = true ∧
      ∀ pre ex post, FirstEntry config.exchanges exchange pre ex post →
        ExchangeBotConfig.fields.NamedAtDefaults (ExchangeBotConfig.tuple ex) body := by
  unfold PartialExchange
  cases hv : (exchange_document config exchange body).bind BotConfig.model_validate with
  | none =>
    refine iff_of_false ?_ fun h => absurd h.1 Bool.false_ne_true
    rintro ⟨pre, ex, post, ex', message, -, hok, -⟩
    obtain ⟨hsome, -⟩ := update_exchange_config_ok.mp hok
    rw [hv] at hsome
    cases hsome
  | some new_config =>
    obtain ⟨current, hd, hcur⟩ := Option.bind_eq_some_iff.mp hv
    obtain ⟨pre, ex, post, ex', hfirst, rfl, hread⟩ := exchange_document_accepted hd hcur
    have hup := ExchangeBotConfig.fields.updated_iff_of_update hread
    constructor
    · rintro ⟨pre₁, ex₁, post₁, ex₁', message, hfirst₁, hok, hup₁⟩
      obtain ⟨rfl, rfl, rfl⟩ := hfirst.unique hfirst₁
      obtain ⟨hsome, -⟩ := update_exchange_config_ok.mp hok
      have hex : pre₁ ++ ex' :: post₁ = pre₁ ++ ex₁' :: post₁ :=
        congrArg BotConfig.exchanges (Option.some.inj (hv.symm.trans hsome))
      obtain rfl := (List.cons.inj (List.append_cancel_left hex)).1
      refine ⟨rfl, fun pre₂ ex₂ post₂ hfirst₂ => ?_⟩
      obtain ⟨rfl, rfl, rfl⟩ := hfirst.unique hfirst₂
      exact hup.mp hup₁
    · rintro ⟨-, hall⟩
      exact ⟨pre, ex, post, ex', _, hfirst, update_exchange_config_ok.mpr ⟨hv, rfl⟩,
        hup.mpr (hall pre ex post hfirst)⟩

/-- A body that names no section of the entry, if it is accepted, changes only what it names. -/
theorem partialExchange_of_flat (hspread : body.get "spread" = none)
    (hdepth : body.get "depth" = none) (hsafety : body.get "safety" = none)
    (hoptions : body.get "ccxt_options" = none) : PartialExchange config exchange body ↔
      ((exchange_document config exchange body).bind BotConfig.model_validate).isSome = true := by
  rw [partialExchange_iff]
  refine and_iff_left fun pre ex post _ => ?_
  -- the other fields are read as a whole
  have hleaf : ∀ {A : Type} (f : FieldInfo A) (a : A), (∀ j, f.codec.AtDefaults a j) →
      f.NamedAtDefaults a body := by
    intro A f a h
    unfold FieldInfo.NamedAtDefaults
    split
    · exact h _
    · trivial
  have hunnamed : ∀ {A : Type} (f : FieldInfo A) (a : A), body.get f.name = none →
      f.NamedAtDefaults a body := by
    intro A f a h
    rw [FieldInfo.NamedAtDefaults, h]
    trivial
  exact ⟨hleaf _ _ fun _ => trivial, hleaf _ _ fun _ => trivial, hleaf _ _ fun _ => trivial,
    hleaf _ _ fun _ => trivial, hunnamed _ _ hspread, hunnamed _ _ hdepth, hunnamed _ _ hsafety,
    hunnamed _ _ hoptions, hleaf _ _ fun _ => trivial, trivial⟩

/-- **When a partial update changes only what it names**: exactly if what the body leaves out, at
any depth and in the entries of the exchanges it lists, is at its default already; for the update of
one exchange, in the sections it names. What is validated is the body by itself, which fills in
defaults. -/
theorem partial_update_iff (config : BotConfig) (exchange : String) (body : Dict) :
    (PartialExchange config exchange body ↔
      ((exchange_document config exchange body).bind BotConfig.model_validate).isSome = true ∧
        ∀ pre ex post, FirstEntry config.exchanges exchange pre ex post →
          ExchangeBotConfig.fields.NamedAtDefaults (ExchangeBotConfig.tuple ex) body) ∧
    (PartialConfig config body ↔
      (BotConfig.model_validate body).isSome = true ∧
        BotConfig.fields.AtDefaults (BotConfig.tuple config) body) :=
  ⟨partialExchange_iff, partialConfig_iff⟩

/-- A configuration whose one exchange halts below 200 USD. -/
def cautious : BotConfig :=
  { exchanges :=
      [{ exchange := .kucoin, symbol := "ALKIMI/USDT"
         safety := { (default : SafetyConfig) with min_balance_usd := ⟨200, by norm_num⟩ } }] }

/-- `{"safety": {"max_drawdown_pct": 10}}` -/
def oneLimit : Dict := [("safety", .obj [("max_drawdown_pct", .num 10)])]

/-- `{"exchanges": [{"exchange": "kucoin", "symbol": "ALKIMI/USDT", "depth":
{"total_budget_usd": 2000}}]}` -/
def oneDepthField : Dict :=
  [("exchanges", .arr [.obj [("exchange", .str "kucoin"), ("symbol", .str "ALKIMI/USDT"),
    ("depth", .obj [("total_budget_usd", .num 2000)])]])]

/-- Naming the drawdown limit resets the balance threshold to 50 USD, naming the exchange's budget
resets it too, and naming `dry_run` drops the exchange. -/
theorem safety_reset :
    ((update_exchange_config cautious "kucoin" oneLimit).toOption.map fun r =>
      r.config.exchanges.map fun ex => ex.safety.min_balance_usd.1) = some [50] ∧
    ((update_config oneDepthField).toOption.map fun r =>
      r.config.exchanges.map fun ex => ex.safety.min_balance_usd.1) = some [50] ∧
    ¬PartialExchange cautious "kucoin" oneLimit ∧ ¬PartialConfig cautious oneDepthField ∧
    ¬PartialConfig cautious [("dry_run", .bool false)] := by
  refine ⟨by decide +kernel, by decide +kernel, ?_, ?_, ?_⟩
  · rw [partialExchange_iff]
    rintro ⟨-, hall⟩
    obtain ⟨-, -, -, -, -, -, hsafety, -⟩ := hall [] _ []
      ⟨rfl, fun _ h => absurd h List.not_mem_nil, rfl⟩
    obtain ⟨d, hd, husd, -⟩ := hsafety
    obtain rfl := Option.some.inj hd
    exact absurd (congrArg (fun o => o.map Subtype.val) husd) (by decide +kernel)
  · rw [partialConfig_iff]
    rintro ⟨-, -, -, -, hexchanges, -⟩
    obtain ⟨js, hjs, hitems⟩ := hexchanges
    obtain rfl := Option.some.inj hjs
    obtain ⟨⟨d, hd, -, -, -, -, -, -, hsafety, -⟩, -⟩ := hitems .kucoin
    obtain rfl := Option.some.inj hd
    exact absurd (congrArg (fun o => o.map fun c => c.min_balance_usd.1) hsafety)
      (by decide +kernel)
  · rw [partialConfig_iff]
    rintro ⟨-, -, -, -, hexchanges, -⟩
    exact absurd (congrArg (fun o => o.map List.length) hexchanges) (by decide)

end Meridian
