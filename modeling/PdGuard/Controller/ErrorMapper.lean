import PdGuard.Config.Loader

namespace PdGuard

inductive ServiceError
  | unauthorized
  | forbidden
  | badRequest (msg : String)
  | payloadTooLarge
  | sessionNotFound
  | overloaded
  | dependencyUnavailable
  | vaultUnavailable
  | upstreamError
  | upstreamTimeout
  | internal
  deriving DecidableEq

namespace ServiceError

def status : ServiceError → ℕ
  | unauthorized => 401
  | forbidden => 403
  | badRequest _ => 400
  | payloadTooLarge => 413
  | sessionNotFound => 404
  | overloaded => 503
  | dependencyUnavailable => 503
  | vaultUnavailable => 503
  | upstreamError => 502
  | upstreamTimeout => 504
  | internal => 500

def code : ServiceError → String
  | unauthorized => "UNAUTHORIZED"
  | forbidden => "FORBIDDEN"
  | badRequest _ => "BAD_REQUEST"
  | payloadTooLarge => "PAYLOAD_TOO_LARGE"
  | sessionNotFound => "SESSION_NOT_FOUND"
  | overloaded => "OVERLOADED"
  | dependencyUnavailable => "DEPENDENCY_UNAVAILABLE"
  | vaultUnavailable => "VAULT_UNAVAILABLE"
  | upstreamError => "UPSTREAM_ERROR"
  | upstreamTimeout => "UPSTREAM_ERROR"
  | internal => "INTERNAL"

def message : ServiceError → String
  | unauthorized => "Неверный ключ или неизвестная система"
  | forbidden => "Доступ запрещён"
  | badRequest msg => msg
  | payloadTooLarge => "Тело запроса слишком большое"
  | sessionNotFound => "Сессия не найдена или истекла"
  | overloaded => "Сервис перегружен, повторите позже"
  | dependencyUnavailable => "Зависимость временно недоступна"
  | vaultUnavailable => "Хранилище масок временно недоступно, повторите запрос позже"
  | upstreamError => "Ошибка вышестоящего сервиса"
  | upstreamTimeout => "Таймаут вышестоящего сервиса"
  | internal => "Внутренняя ошибка"

def ofPolicy : PolicyError → ServiceError
  | .unknownSystem => unauthorized
  | .systemDisabled => forbidden
  | .routeForbidden => forbidden

end ServiceError

end PdGuard
