import JsonRpcServer.Framework.Bytes

/-! # Error Codes

  `JsonRPCErrorCodes` with its values, its texts and its HTTP codes.
-/

namespace JsonRPCServer

open Bytes

inductive JsonRPCErrorCodes where
  | NoError
  | ParseError
  | InvalidRequest
  | MethodNotFound
  | InvalidParams
  | InternalError
  | NullIDError
  | ObjectNotFound
  deriving DecidableEq, Repr

namespace JsonRPCErrorCodes

/-- The value of the enumerator. -/
def value : JsonRPCErrorCodes → Int
  | NoError => 0
  | ParseError => -32700
  | InvalidRequest => -32600
  | MethodNotFound => -32601
  | InvalidParams => -32602
  | InternalError => -32603
  | NullIDError => -31000
  | ObjectNotFound => -31001

end JsonRPCErrorCodes

open JsonRPCErrorCodes

def errCodeToStr : JsonRPCErrorCodes → Bytes
  | NoError => ascii "OK"
  | ParseError => ascii "Parse error"
  | InvalidRequest => ascii "Invalid Request"
  | MethodNotFound => ascii "Method not found"
  | InvalidParams => ascii "Invalid params"
  | InternalError => ascii "Internal error"
  | NullIDError => ascii "ID is 0"
  | ObjectNotFound => ascii "Object not found"

def errCodeToHTTPCode : JsonRPCErrorCodes → Int
  | NoError => 200
  | InvalidRequest => 400
  | MethodNotFound | ObjectNotFound => 404
  | ParseError | InvalidParams | InternalError | NullIDError => 500

end JsonRPCServer
