import SchemaStructs.Schema.Written

namespace SchemaStructs.Sample

def named (type : String) : Written := { type := some (.single type) }

def referring (text : String) : Written := { reference := some text }

def orders : Written where
  id := some "orders"
  title := some "Order"
  type := some (.single "object")
  required := ["id", "customer"]
  properties :=
    [("id", named "string"),
      ("customer", referring "customers#/definitions/customer"),
      ("lines", { named "array" with items := some (referring "#/definitions/line") }),
      ("metadata", { named "object" with additional := some (.inr (named "string")) })]
  definitions :=
    [("line",
      { named "object" with
        properties :=
          [("sku", named "string"), ("quantity", named "integer"), ("price", named "number")] })]

def customers : Written where
  id := some "customers"
  type := some (.single "array")
  items := some (referring "#/definitions/customer")
  definitions :=
    [("customer",
      { named "object" with
        title := some "Customer"
        properties :=
          [("name", named "string"), ("referrer", referring "#/definitions/customer")] })]

end SchemaStructs.Sample
