import RpcClient.Session.Basic

/-!
What the calls and the connections of a session do next. Calls come before connections, and those
that came first before others.
-/
namespace RpcClient.Session

/-! ### Connecting -/

/-- What a listener is to be connected to. -/
def targetOf (s : Session) (listener : String) : Except Failure Target :=
  if Listener.isAddress listener then .ok (.address listener)
  else if s.addressesOnly then .error (.settings (.notAddress listener))
  else .ok (.listener listener)

/-- What a call can do that is connecting. `answered` takes the answer, and `giveUp?` is what happens
if there is none yet. -/
def dialAct? (s : Session) (r n : Nat) (target : Target) (answered : Session → Answer → Session)
    (giveUp? : Option Session) : Option Session :=
  let isThis (dial : Dial) : Bool := dial.replica == r && dial.call == n
  let others := s.dials.filter fun dial => !isThis dial
  match s.dials.find? isThis with
  | none =>
    some { s with dials := s.dials ++ [{ replica := r, call := n, target, since := s.now }] }
  | some dial =>
    match dial.answer with
    | some answer => some (answered { s with dials := others } answer)
    | none => giveUp?.map fun s => { s with dials := others }

/-- What a call can do that is connecting to the listener of its channel. The link that it gets
carries the next connection of the channel. -/
def listenerAct? (s : Session) (r n : Nat) (listener : String)
    (dialed : Session → Option Failure → Session) (giveUp? : Option Session) : Option Session :=
  match s.targetOf listener with
  | .error failure => some (dialed s (some failure))
  | .ok target =>
    s.dialAct? r n target (fun s answer =>
      match answer with
      | .connected l => dialed (s.addLink r l) none
      | .flawed flaw => dialed s (some (.connectionFailed (.dial listener flaw)))
      | .unknown => dialed s (some (.settings (.unknownListener listener)))) giveUp?

/-- What a call can do that is connecting to a host of its own. -/
def hostAct? (s : Session) (i r n : Nat) (host : String)
    (dialed : Session → Option TransportFlaw → Session) (giveUp? : Option Session) :
    Option Session :=
  s.dialAct? r n (.address host) (fun s answer =>
    match answer with
    | .connected l =>
      let s := { s with calls := s.calls.modify i fun call =>
        match call.progress with
        | .running r n request deadline _ =>
          { call with progress := .running r n request deadline (some l) }
        | _ => call }
      dialed s none
    | .flawed flaw => dialed s (some flaw)
    | .unknown => dialed s (some .notAddress)) giveUp?

def numberedLink? (s : Session) (l : Option Nat) : Option (Nat × Link) :=
  l.bind fun l => s.links[l]?.map fun link => (l, link)

/-! ### Calls -/

/-- What a call on a connection of its own, over a multiplexed channel, can do. -/
def directAct? (s : Session) (i r n : Nat) (link : Option Nat) (ch : Multiplex.Channel)
    (address : String) (stage : Multiplex.DirectStage) (giveUp? : Option Session) :
    Option Session :=
  let take (event : Multiplex.Event) : Session := s.setMultiplexed r (ch.step event)
  match stage with
  | .dialing =>
    s.hostAct? i r n address
      (fun s flaw => s.setMultiplexed r (ch.step (.directDialed n flaw))) giveUp?
  | .writing rest =>
    match s.numberedLink? link with
    | none => giveUp?
    | some (l, link) =>
      if !link.remoteOpen then some (take (.directWriteFailed n .brokenPipe))
      else
        let (link, count) := link.clientWrite rest
        if 0 < count then some ((take (.directWrite n count)).setLink l link) else giveUp?
  | .reading _ =>
    match s.numberedLink? link with
    | none => giveUp?
    | some (l, link) =>
      match link.clientRead with
      | (link, .bytes bytes) => some ((take (.directRead n (.bytes bytes))).setLink l link)
      | (_, .ended) => some (take (.directRead n .ended))
      | (_, .nothing) => giveUp?

def multiplexedAct? (s : Session) (i r n : Nat) (d : Deadline) (link : Option Nat)
    (listener : String) (ch : Multiplex.Channel) (links : List Nat) : Option Session :=
  let take (event : Multiplex.Event) : Session := s.setMultiplexed r (ch.step event)
  let expire? : Option Session := if d.isPast s.now then some (take (.deadline n)) else none
  let giveUp? : Option Session :=
    expire? <|> if d.isCancelled s.now then some (take (.cancel n)) else none
  match ch.phase? n with
  | none | some (.done _) | some .dropped => none
  | some .seeking => if ch.dialer.isNone then some (take (.seek n)) else giveUp?
  | some .dialing =>
    s.listenerAct? r n listener
      (fun s failure => s.setMultiplexed r (ch.step (.dialed n failure))) giveUp?
  | some (.entering _) => some (take (.enter n))
  | some (.queued c) =>
    if ch.conns[c]?.bind Multiplex.Connection.holder = some n then some (take (.enter n))
    else expire?
  | some (.writing c rest) =>
    match s.numberedLink? links[c]? with
    | none => none
    | some (l, link) =>
      if !link.remoteOpen then some (take (.writeFailed n .brokenPipe))
      else
        let (link, count) := link.clientWrite rest
        if 0 < count then some ((take (.write n count)).setLink l link)
        else if ch.isClosed c then some (take (.abort n))
        else expire?
  | some (.expired _) | some (.failed _ _) => some (take (.giveUp n))
  | some (.clearing _ _) => if ch.dialer.isNone then some (take (.clear n)) else expire?
  | some (.waiting c) =>
    let isAnswered := (ch.calls[n]?).any fun call => (ch.outcome? call c).isSome
    if isAnswered then some (take (.resume n))
    else giveUp? <|> if ch.isClosed c then some (take (.resume n)) else none
  | some (.direct address stage) => s.directAct? i r n link ch address stage giveUp?

def pooledAct? (s : Session) (r n : Nat) (d : Deadline) (listener : String)
    (ch : Http.Channel Http.Connection) : Option Session :=
  let take (event : Http.Channel.Event Http.Connection.Input) : Session :=
    s.setPooled r (ch.step Http.Connection.client event)
  let expire? : Option Session := if d.isPast s.now then some (take (.deadline n)) else none
  let giveUp? : Option Session :=
    expire? <|> if d.isCancelled s.now then some (take (.cancel n)) else none
  match ch.calls[n]? with
  | some (.getting _ caller) =>
    match ch.pool.gets[caller]? with
    | some .granted => some (take (.resume n))
    | some .picking => some (take (.pick n))
    | some .dialing =>
      s.listenerAct? r n listener
        (fun s failure => s.setPooled r (ch.step Http.Connection.client (.dialed n failure))) expire?
    | some .queued => giveUp?
    | some (.holding _) | some (.failed _) => some (take (.begin n))
    | _ => none
  | some (.exchanging _ caller) =>
    let isOver : Bool :=
      match ch.pool.gets[caller]? with
      | some (.holding c) => (ch.pool.conns[c]?).any (·.content.result?.isSome)
      | _ => false
    if isOver then some (take (.finish n)) else giveUp?
  | some (.parting _ _) => some (take (.leave n))
  | _ => none

def routedAct? (s : Session) (i r n : Nat) (d : Deadline) (link : Option Nat)
    (ch : Http.Routed.Channel) : Option Session :=
  let take (event : Http.Routed.Event) : Session := s.setChannel r (.routed (ch.step event))
  let giveUp? : Option Session :=
    if d.isPast s.now || d.isCancelled s.now then some (take (.giveUp n)) else none
  match ch.calls[n]? with
  | some (.seeking _) => some (take (.seek n))
  | some (.dialing host _) =>
    s.hostAct? i r n host
      (fun s flaw => s.setChannel r (.routed (ch.step (.dialed n flaw)))) giveUp?
  | some (.exchanging conn) =>
    if conn.result?.isSome then some (take (.finish n))
    else
      match s.numberedLink? link with
      | none => giveUp?
      | some (l, link) =>
        match link.clientRead with
        | (link, .bytes bytes) => some ((take (.received n bytes)).setLink l link)
        | (_, .ended) => some (take (.finished n))
        | (_, .nothing) =>
          let (link, count) := link.clientWrite conn.output
          if 0 < count then some ((take (.written n count)).setLink l link) else giveUp?
  | _ => none

def result? (channel : Channel) (n : Nat) : Option (Except Failure Response) :=
  match channel with
  | .multiplexed _ ch =>
    match ch.phase? n with
    | some (.done result) => some result
    | _ => none
  | .pooled _ ch =>
    match ch.calls[n]? with
    | some (.done result) => some result
    | _ => none
  | .routed ch =>
    match ch.calls[n]? with
    | some (.done result) => some result
    | _ => none

/-- What a call can do now. A call that has ended drops the link that it had for itself. -/
def callAct? (s : Session) (i : Nat) : Option Session :=
  match s.calls[i]? with
  | none => none
  | some call =>
    match call.progress with
    | .over _ => none
    | .scheduled => if call.startAt ≤ s.now then some (s.start i call) else none
    | .running r n request d link =>
      match s.channel? r with
      | none => none
      | some (channel, links) =>
        match result? channel n with
        | some result =>
          let s :=
            match s.numberedLink? link with
            | some (l, link) => s.setLink l link.dropClient
            | none => s
          some (s.conclude i request (result.mapError .failed))
        | none =>
          match channel with
          | .multiplexed listener ch => s.multiplexedAct? i r n d link listener ch links
          | .pooled listener ch => s.pooledAct? r n d listener ch
          | .routed ch => s.routedAct? i r n d link ch

/-! ### Connections -/

def multiplexedConnAct? (s : Session) (r c : Nat) (ch : Multiplex.Channel) (links : List Nat) :
    Option Session :=
  let take (event : Multiplex.Event) : Session := s.setMultiplexed r (ch.step event)
  match ch.conns[c]?, s.numberedLink? links[c]? with
  | some conn, some (l, link) =>
    match conn.reader with
    | .stopping _ => some (take (.readerStops c))
    | .decoding => some (take (.decode c))
    | .reading =>
      match link.clientRead with
      | (link, .bytes bytes) => some ((take (.received c bytes)).setLink l link)
      | (_, .ended) => some (take (.ended c))
      | (_, .nothing) => if conn.closed then some (take (.readerStops c)) else none
    | .stopped =>
      if link.clientOpen && !conn.writable then some (s.setLink l link.dropClient) else none
  | _, _ => none

def pooledConnAct? (s : Session) (r c : Nat) (ch : Http.Channel Http.Connection) (links : List Nat) :
    Option Session :=
  let take (input : Http.Connection.Input) : Session :=
    s.setPooled r (ch.step Http.Connection.client (.meet c input))
  match ch.pool.conns[c]?, s.numberedLink? links[c]? with
  | some conn, some (l, link) =>
    if !ch.isOpen Http.Connection.client c then
      if link.clientOpen then some (s.setLink l link.dropClient) else none
    else
      match link.clientRead with
      | (link, .bytes bytes) => some ((take (.received bytes)).setLink l link)
      | (_, .ended) => some (take .finished)
      | (_, .nothing) =>
        let (link, count) := link.clientWrite conn.content.output
        if 0 < count then some ((take (.written count)).setLink l link) else none
  | _, _ => none

def replicaAct? (s : Session) (r : Nat) : Option Session :=
  match s.channel? r with
  | some (.multiplexed _ ch, links) =>
    (List.range ch.conns.length).findSome? fun c => s.multiplexedConnAct? r c ch links
  | some (.pooled _ ch, links) =>
    (List.range ch.pool.conns.length).findSome? fun c => s.pooledConnAct? r c ch links
  | _ => none

def act? (s : Session) : Option Session :=
  (List.range s.calls.length).findSome? s.callAct? <|>
    (List.range s.invoker.replicas.length).findSome? s.replicaAct?

end RpcClient.Session
