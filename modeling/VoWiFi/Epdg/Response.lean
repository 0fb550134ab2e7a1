import VoWiFi.Epdg.TaskManager

/-!
# The query behind a response

`build_response` reports a response under the name of the current query, and the response is meant to
carry the changes this query asks for. This module says what that means for the lookups made while the
bytes of the response are generated, and for which tasks it comes true.
-/

namespace Epdg

/-! ## What a query asks for -/

/-- The sub-query at the end of a path of names. -/
def Query.at? (q : Query) (path : List Text) : Option Query := path.foldlM getSubQueryByName q

/-- The responses whose headers and sizes `process_ike_header` and `generate_message` change. -/
def generatedRounds : List Round := [.init, .auth 0, .auth 1, .auth 2, .auth 3]

/-- The fields that `process_ike_header` changes. -/
def headerNames : List Text :=
  ["initiator_spi", "responder_spi", "ike_major_version", "ike_minor_version", "exchange_type",
    "flags", "message_id"].map String.toList

/-- The places where `check_drop_next` looks for a drop, in the query for a response. -/
def dropPaths : Round → List (List Text)
  | .init =>
    [["security_association".toList], ["key_exchange".toList], ["nonce".toList],
      ["notify".toList, "nat_detection_source_ip".toList],
      ["notify".toList, "nat_detection_destination_ip".toList]]
  | .auth 0 => [["id_responder".toList], ["extensible_authentication".toList]]
  | .auth 1 => [["extensible_authentication".toList]]
  | .auth 2 =>
    [["authentication".toList], ["ts_initiator".toList], ["ts_responder".toList],
      ["configuration".toList]]
  | _ => []

/-- The responses whose authentication code `encrypt_content` changes. -/
def authenticatedRounds : List Round := [.auth 0, .auth 1, .auth 2]

/-- The query asks for a change of the header, or for a payload to be dropped. -/
def asksPayload (r : Round) (q : Query) : Bool :=
  (generatedRounds.contains r && headerNames.any fun name => (getSubQueryByName q name).isSome) ||
    (dropPaths r).any fun path => (Query.at? q path).any (·.label.op = .drop)

/-- The query asks for a change of the authentication code. -/
def asksAuthenticationCode (r : Round) (q : Query) : Bool :=
  authenticatedRounds.contains r &&
    (getSubQueryByName q "message_authentication_code".toList).isSome

/-- The lookups made for a response see its query, and those that apply its changes are made. -/
structure Applied (r : Round) (q : Query) (lookups : List Lookup) : Prop where
  sees : ∀ l ∈ lookups, l.seen = some q
  payload : asksPayload r q = true → ∃ l ∈ lookups, l.site = .payload
  authenticationCode : asksAuthenticationCode r q = true →
    ∃ l ∈ lookups, l.site = .messageAuthenticationCode

/-- The lookups made for the bytes of a packet that is sent; there are none for a notify, whose message
has no instance. -/
def Action.lookups? : Action → Option (List Lookup)
  | .respond lookups => some lookups
  | .notify _ => some []
  | _ => none

/-- `build_response` gets query `q` for the instance, which is `inst` then, and reports the response
under its name. -/
def TaskManager.ReportsAs (tm : TaskManager) (h : Header) (env : Env) (r : Round) (q : Query)
    (inst : Instance) : Prop :=
  tm.attached = true ∧ tm.inst.getNextQuery env.wait = some (some q, inst) ∧
    responseLabel h.exchange q inst.sprev = .ok (.response r, r)

/-- The query that is reported is the one that is applied to the response. -/
def TaskManager.AppliesQuery (tm : TaskManager) (h : Header) (env : Env) : Prop :=
  ∀ r q inst, tm.ReportsAs h env r q inst →
    ∀ lookups ∈ (tm.buildResponse h env).log.filterMap Action.lookups?, Applied r q lookups

/-! ## When it is applied -/

/-- The generation of a message comes to an end. -/
def Generation.succeeds (g : Generation) : Bool := g.ready && g.completes

/-- The task is the authentication task, and generates the response. -/
def generates (exchange : ExchangeType) (task : TaskType) : Bool :=
  task = .ikeAuth && exchange = .ikeSaInit

/-- The task fails, if no task before it has generated the response. -/
def BuildOutcome.fails (exchange : ExchangeType) (task : TaskType) (o : BuildOutcome) : Bool :=
  if generates exchange task then !(o.nonce && o.generation.succeeds)
  else o.status ≠ .success && o.status ≠ .needMore

/-- The task marks a failure to be reported. -/
def BuildOutcome.marks (o : BuildOutcome) : Bool :=
  o.authenticationFailed || o.noProposalChosen || o.invalidKePayload

/-- The generation of the response by a task, if a task gets to it. -/
def pregeneration (exchange : ExchangeType) :
    List TaskType → (ℕ → BuildOutcome) → Option Generation
  | [], _ => none
  | task :: tasks, o =>
    if (o 0).fails exchange task then none
    else if generates exchange task then some (o 0).generation
    else pregeneration exchange tasks (o ∘ Nat.succ)

/-- A task fails. -/
def anyFails (exchange : ExchangeType) : List TaskType → (ℕ → BuildOutcome) → Bool
  | [], _ => false
  | task :: tasks, o => (o 0).fails exchange task || anyFails exchange tasks (o ∘ Nat.succ)

/-- A task marks a failure, up to the first one that fails. -/
def anyMarks (exchange : ExchangeType) : List TaskType → (ℕ → BuildOutcome) → Bool
  | [], _ => false
  | task :: tasks, o =>
    (!generates exchange task && (o 0).marks) ||
      (!(o 0).fails exchange task && anyMarks exchange tasks (o ∘ Nat.succ))

/-- A failure is marked in the instance. -/
def Instance.marked (inst : Instance) : Bool :=
  inst.authenticationFailed || inst.noProposalChosen || inst.invalidKePayload

/-- The query is released before the response is generated, but no lookup is made: the session has been
reset, or a failure frees it, or `check_instance` does not know the responder's SPI of zero of a
failed IKE_SA_INIT exchange and there is no payload. -/
def TaskManager.Silent (tm : TaskManager) (h : Header) (env : Env) : Prop :=
  tm.attached = false ∨
  (tm.inst.marked || anyMarks h.exchange tm.passiveTasks env.build) = true ∨
  (h.exchange = .ikeSaInit ∧ anyFails h.exchange tm.passiveTasks env.build = true ∧
    tm.inst.pispi ≠ tm.inst.ispi ∧ tm.inst.pispi ≠ 0 ∧ env.generation.payloads = 0)

/-- The response carries what the query asks for: the authentication task generates it while the query
is there, with a payload if one is needed, or the query asks for nothing that is looked up and no
lookup is made. -/
def TaskManager.Keeps (tm : TaskManager) (h : Header) (env : Env) (r : Round) (q : Query) : Prop :=
  if (failureOf q).isSome then asksPayload r q = false ∧ asksAuthenticationCode r q = false
  else
    match pregeneration h.exchange tm.passiveTasks env.build with
    | some g => asksPayload r q = true → tm.attached = true ∧ 0 < g.payloads
    | none => env.generation.succeeds = true →
      tm.Silent h env ∧ asksPayload r q = false ∧ asksAuthenticationCode r q = false

end Epdg
