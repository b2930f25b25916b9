import ApiForge.Code.Layout

/-! The container image of a controller. -/

namespace ApiForge.Generated

open Code

def imageLines (controller imageRepo : String) : Lines := [
  "# generated by 'threeport-sdk gen' - do not edit",
  "",
  "FROM golang:1.21 AS builder",
  "ARG TARGETOS",
  "ARG TARGETARCH",
  "",
  "WORKDIR /workspace",
  "COPY go.mod go.sum ./",
  "RUN go mod download",
  "COPY . .",
  "",
  "RUN CGO_ENABLED=0 GOOS=$\x7bTARGETOS:-linux\x7d GOARCH=$\x7bTARGETARCH\x7d go build -a -o " ++
    s!"{controller} ./cmd/{controller}",
  "",
  "FROM gcr.io/distroless/static:nonroot",
  s!"LABEL org.opencontainers.image.source={inQuotes imageRepo}",
  "WORKDIR /",
  s!"COPY --from=builder /workspace/{controller} .",
  "USER 65532:65532",
  "",
  s!"ENTRYPOINT [\"/{controller}\"]"]

end ApiForge.Generated
