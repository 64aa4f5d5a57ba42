import RpcClient.Http.Client

/-! How the connections of a client are used: a connection gets a request only while it is open and has no exchange to
end, and is reset only when the response of its exchange is there as a whole. -/
namespace RpcClient.Http.Client

variable {κ ι : Type}

/-- A connection that has been used so works for the request that it got last, or for none behind the end of an
exchange. -/
inductive Serves (client : Client κ ι) : Option Request → κ → Prop where
  | fresh : Serves client none client.fresh
  | meet {task : Option Request} {conn : κ} {input : ι} :
      Serves client task conn → Serves client task (client.meet input conn)
  | send {request : Request} {conn : κ} :
      Serves client none conn → client.isClosed conn = false → Serves client (some request) (client.send request conn)
  | reset {request : Request} {conn : κ} {response : Response} :
      Serves client (some request) conn → client.result? conn = some (.ok response) →
      Serves client none (client.reset conn)

/-- A client whose connections end an exchange with a whole response only when it is one to the request of that
exchange, as long as they are used so. -/
def Honest (client : Client κ ι) (answers : Request → Response → Prop) : Prop :=
  ∀ {request conn response}, client.Serves (some request) conn → client.result? conn = some (.ok response) →
    answers request response

end RpcClient.Http.Client
